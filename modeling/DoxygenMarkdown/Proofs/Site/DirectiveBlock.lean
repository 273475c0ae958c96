import DoxygenMarkdown.Proofs.Site.FencedBlock
import DoxygenMarkdown.Site.Directive

/-!
# A directive is found as it was written

A directive is written over several lines (`DirectiveBlock.text`): one that names it, blank ones,
and one for each option. Going through a page that begins with these lines cuts out all of them and
nothing else (`cut_text`), whatever follows, if what follows does not go on with the directive
(`EndsBefore`). A line that opens a directive belongs to no directive above it (`find?_append`), so
that one is found anywhere in a page.

Every line of the directive ends with a line feed. At the end of a page, a line that has none sets
no option (`read?_of_notMem`), and it stays where it is.
-/

namespace DoxygenMarkdown.Site

/-! ## Lines that set options -/

namespace OptionLine

/-- What is read off a line, and that it is a line. -/
theorem of_read?_eq_some {indent l : Text} {o : OptionLine} (h : read? indent l = some o) :
    l.endsWith ['\n'] = true ∧ ∃ further r : Text,
      (further ≠ [] ∧ ∀ c ∈ further, isIndent c = true) ∧
      (o.key ≠ [] ∧ ∀ c ∈ o.key, isWordChar c = true) ∧
      l = indent ++ (further ++ ':' :: (o.key ++ ':' :: r)) := by
  obtain ⟨t, ht, h⟩ := Option.bind_eq_some_iff.1 h
  dsimp only at h
  by_cases hfurther : (t.takeWhile isIndent).isEmpty = true
  · rw [if_pos hfurther] at h
    cases h
  rw [if_neg hfurther] at h
  obtain ⟨_, -, h⟩ := Option.bind_eq_some_iff.1 h
  obtain ⟨u, hu, h⟩ := Option.bind_eq_some_iff.1 h
  obtain ⟨r, hr, h⟩ := Option.bind_eq_some_iff.1 h
  rw [Text.after?_eq_some_iff] at ht hu hr
  split at h
  · cases h
  · next hread =>
    rw [Bool.or_eq_true, not_or, Bool.not_eq_true', Bool.not_eq_false] at hread
    obtain rfl := Option.some.inj h
    refine ⟨hread.2, t.takeWhile isIndent, r, ⟨?_, ?_⟩, ⟨?_, ?_⟩, ?_⟩
    · exact fun hnil => hfurther (List.isEmpty_iff.2 hnil)
    · exact List.all_eq_true.1 List.all_takeWhile
    · exact fun hnil => hread.1 (List.isEmpty_iff.2 hnil)
    · exact List.all_eq_true.1 List.all_takeWhile
    · have ht' := Text.eq_append_of_dropWhile hu
      have hu' := Text.eq_append_of_dropWhile hr
      rw [List.singleton_append] at ht' hu'
      rw [← hu', ← ht', ht]

/-- At the end of a page, a line without a line feed sets no option. -/
theorem read?_of_notMem {l : Text} (h : '\n' ∉ l) (indent : Text) : read? indent l = none := by
  refine Option.eq_none_iff_forall_ne_some.2 fun o ho => h ?_
  exact (List.isSuffixOf_iff_suffix.1 (of_read?_eq_some ho).1).subset List.mem_cons_self

end OptionLine

/-! ## Lines that open directives -/

namespace Directive

variable {indent l : Text}

/-- What is known of a line that opens a directive. -/
theorem of_opening?_eq_some (h : opening? l = some indent) :
    (∀ c ∈ indent, isIndent c = true) ∧ ∃ t, l = indent ++ (mark ++ t) := by
  obtain ⟨t, ht, h⟩ := Option.bind_eq_some_iff.1 h
  dsimp only at h
  split at h
  · cases h
  · obtain ⟨_, -, h⟩ := Option.bind_eq_some_iff.1 h
    obtain ⟨r, -, h⟩ := Option.bind_eq_some_iff.1 h
    have hindent : l.takeWhile isIndent = indent := by
      split at h
      · exact Option.some.inj h
      · cases h
    rw [Text.after?_eq_some_iff] at ht
    rw [← hindent]
    exact ⟨List.all_eq_true.1 List.all_takeWhile, t, Text.eq_append_of_dropWhile ht⟩

/-- A line with a colon is not blank. -/
theorem isGap_of_colon_mem (h : ':' ∈ l) : isGap l = false := by
  refine Bool.and_eq_false_iff.2 (.inl (Bool.eq_false_iff.2 fun hblank => ?_))
  exact absurd (List.all_eq_true.1 hblank _ h) (by decide)

theorem isGap_append_break {k : Text} (hk : k.allBlank = true) : isGap (k ++ ['\n']) = true := by
  have hblank : Text.allBlank (k ++ ['\n']) = true := by
    rw [Text.allBlank, List.all_append, ← Text.allBlank, hk]
    rfl
  rw [isGap, hblank, Text.endsWith_append]
  rfl

theorem isGap_of_opening? (h : opening? l = some indent) : isGap l = false := by
  obtain ⟨-, t, rfl⟩ := of_opening?_eq_some h
  exact isGap_of_colon_mem (by simp [mark])

/-- A line that opens a directive sets no option of one above it. -/
theorem read?_of_opening? (h : opening? l = some indent) {above : Text}
    (habove : ∀ c ∈ above, isIndent c = true) : OptionLine.read? above l = none := by
  obtain ⟨hindent, t, rfl⟩ := of_opening?_eq_some h
  refine Option.eq_none_iff_forall_ne_some.2 fun o ho => ?_
  obtain ⟨-, further, r, hfurther, hkey, hline⟩ := OptionLine.of_read?_eq_some ho
  -- behind the first colon is a second one, where the key of an option would begin
  have hpad : ∀ c ∈ above ++ further, isIndent c = true := by
    intro c hc
    exact (List.mem_append.1 hc).elim (habove c) (hfurther.2 c)
  have hleft := (Text.span_append_cons hindent (by decide : isIndent ':' = false)
    ("::".toList ++ t)).2
  have hright := (Text.span_append_cons hpad (by decide : isIndent ':' = false)
    (o.key ++ ':' :: r)).2
  rw [List.append_assoc, ← hline] at hright
  have hkeyEq : "::".toList ++ t = o.key ++ ':' :: r := (List.cons.inj (hleft.symm.trans hright)).2
  obtain ⟨c, key, hc⟩ := List.exists_cons_of_ne_nil hkey.1
  rw [hc] at hkeyEq
  have hword := hkey.2 c (hc ▸ List.mem_cons_self)
  rw [← (List.cons.inj hkeyEq).1] at hword
  exact absurd hword (by decide)

theorem optionLines_append {above : Text} (hread : OptionLine.read? above l = none)
    (ls ms : List Text) : optionLines above (ls ++ l :: ms) = optionLines above ls := by
  induction ls with
  | nil =>
    rw [List.nil_append, optionLines, optionLines, hread]
  | cons k ls ih =>
    rw [List.cons_append, optionLines, optionLines, ih]

theorem length_optionLines_le (indent : Text) (ls : List Text) :
    (optionLines indent ls).length ≤ ls.length := by
  induction ls with
  | nil => exact Nat.le_refl _
  | cons l ls ih =>
    rw [optionLines]
    split
    · exact Nat.succ_le_succ ih
    · exact Nat.zero_le _

theorem find?_le {ls : List Text} {d : Directive} {more : Nat}
    (h : find? (l :: ls) = some (d, more)) : more ≤ ls.length := by
  rw [find?] at h
  split at h
  · cases h
  · next indent _ =>
    obtain ⟨-, rfl⟩ := Prod.mk.inj (Option.some.inj h)
    have hlength := congrArg List.length (List.takeWhile_append_dropWhile (p := isGap) (l := ls))
    have hle := length_optionLines_le indent (ls.dropWhile isGap)
    rw [List.length_append] at hlength
    omega

theorem find?_append (h : opening? l = some indent) (ms : List Text) (k : Text) (ls : List Text) :
    find? (k :: (ls ++ l :: ms)) = find? (k :: ls) := by
  rw [find?, find?]
  cases habove : opening? k with
  | none => rfl
  | some above =>
    have hread := read?_of_opening? h (of_opening?_eq_some habove).1
    have hgap := isGap_of_opening? h
    simp only [Text.takeWhile_append_cons hgap, Text.dropWhile_append_cons hgap,
      optionLines_append hread]

end Directive

/-! ## How a directive is written -/

/-- An option as it is written, with the indentation that its line has beyond that of the
directive. -/
structure IndentedOption where
  further : Text
  option : OptionLine
deriving DecidableEq, Repr

namespace IndentedOption

/-- The line of an option. -/
def line (indent : Text) (o : IndentedOption) : Text :=
  indent ++ (o.further ++ (o.option.text ++ ['\n']))

/-- An option on a line that is indented further than the directive, with a key that is a name. -/
structure IsWellFormed (o : IndentedOption) : Prop where
  further : o.further ≠ [] ∧ ∀ c ∈ o.further, isIndent c = true
  key : o.option.key ≠ [] ∧ ∀ c ∈ o.option.key, isWordChar c = true
  rest : '\n' ∉ o.option.rest

variable {indent : Text} {o : IndentedOption}

theorem IsWellFormed.exists_line_eq (h : o.IsWellFormed) (hindent : '\n' ∉ indent) :
    ∃ k, '\n' ∉ k ∧ o.line indent = k ++ ['\n'] := by
  refine ⟨indent ++ (o.further ++ o.option.text), ?_, by simp [line]⟩
  have hfurther : '\n' ∉ o.further := fun hmem => absurd (h.further.2 _ hmem) (by decide)
  have hkey : '\n' ∉ o.option.key := fun hmem => absurd (h.key.2 _ hmem) (by decide)
  simp [OptionLine.text, hindent, hfurther, hkey, h.rest]

theorem IsWellFormed.read?_line (h : o.IsWellFormed) (indent : Text) :
    OptionLine.read? indent (o.line indent) = some o.option := by
  have hends : (o.line indent).endsWith ['\n'] = true := by
    rw [line, ← List.append_assoc, ← List.append_assoc]
    exact Text.endsWith_append _ _
  have hafter : Text.after? indent (o.line indent) =
      some (o.further ++ ':' :: (o.option.key ++ ':' :: (o.option.rest ++ ['\n']))) := by
    rw [line, Text.after?_append, OptionLine.text]
    simp
  have hcolon (t : Text) : Text.after? [':'] (':' :: t) = some t := Text.after?_append [':'] t
  obtain ⟨hfurther, hkey⟩ := Text.span_append_cons h.further.2 (by decide : isIndent ':' = false)
    (o.option.key ++ ':' :: (o.option.rest ++ ['\n']))
  obtain ⟨hname, hrest⟩ := Text.span_append_cons h.key.2 (by decide : isWordChar ':' = false)
    (o.option.rest ++ ['\n'])
  have hvalue : Text.withoutBreak (o.option.rest ++ ['\n']) = o.option.rest :=
    Text.withoutBreak_append h.rest (.lineFeed [])
  have hfurtherNe : o.further.isEmpty = false := List.isEmpty_eq_false_iff.2 h.further.1
  have hkeyNe : o.option.key.isEmpty = false := List.isEmpty_eq_false_iff.2 h.key.1
  rw [OptionLine.read?, hafter]
  simp only [Option.bind_eq_bind, Option.bind_some, hfurther, hkey, hcolon, hname, hrest, hvalue,
    hends, hfurtherNe, hkeyNe]
  rfl

/-- A line that sets an option is written as one. -/
theorem exists_of_read?_eq_some {k : Text} (hk : '\n' ∉ k) {option : OptionLine}
    (h : OptionLine.read? indent (k ++ ['\n']) = some option) :
    ∃ o : IndentedOption, o.IsWellFormed ∧ k ++ ['\n'] = o.line indent := by
  obtain ⟨-, further, r, hfurther, hkey, hline⟩ := OptionLine.of_read?_eq_some h
  -- the line feed stands behind the second colon
  rcases List.eq_nil_or_concat r with rfl | ⟨rest, c, rfl⟩
  · have hcolon : k ++ ['\n'] = (indent ++ (further ++ ':' :: option.key)) ++ [':'] := by
      simpa using hline
    have heq : ['\n'] = [':'] := (List.append_inj' hcolon rfl).2
    cases heq
  · have hconcat : k ++ ['\n'] =
        (indent ++ (further ++ ':' :: (option.key ++ ':' :: rest))) ++ [c] := by
      simpa using hline
    obtain ⟨hlineK, hc⟩ := List.append_inj' hconcat rfl
    obtain rfl : '\n' = c := List.singleton_inj.1 hc
    have hrest : '\n' ∉ rest := by
      intro hmem
      rw [hlineK] at hk
      simp [hmem] at hk
    refine ⟨⟨further, option.key, rest⟩, ⟨hfurther, hkey, hrest⟩, ?_⟩
    simpa [line, OptionLine.text] using hline

/-- All options are read, up to a line that is none. -/
theorem optionLines_append {os : List IndentedOption} (hos : ∀ o ∈ os, o.IsWellFormed)
    {ls : List Text} (hls : ∀ l ∈ ls.head?, OptionLine.read? indent l = none) :
    Directive.optionLines indent (os.map (·.line indent) ++ ls) = os.map (·.option) := by
  induction os with
  | nil =>
    cases ls with
    | nil => rfl
    | cons l ls =>
      rw [List.map_nil, List.nil_append, Directive.optionLines, hls l rfl]
      rfl
  | cons o os ih =>
    rw [List.forall_mem_cons] at hos
    rw [List.map_cons, List.cons_append, Directive.optionLines, hos.1.read?_line indent, ih hos.2,
      List.map_cons]

end IndentedOption

/-- A directive as it is written: what stands between its mark and its name, what follows the name
up to the line feed before the first option, and the options. -/
structure DirectiveBlock where
  indent : Text
  gap : Text
  blanks : Text
  options : List IndentedOption
deriving DecidableEq, Repr

namespace DirectiveBlock

/-- What stands before the blanks. -/
def head (b : DirectiveBlock) : Text :=
  b.indent ++ (Directive.mark ++ (b.gap ++ "doxygen:bindgen".toList))

/-- The lines of the options. -/
def optionLines (b : DirectiveBlock) : List Text := b.options.map (·.line b.indent)

/-- The directive as it is written in a page. -/
def text (b : DirectiveBlock) : Text := b.head ++ (b.blanks ++ '\n' :: b.optionLines.flatten)

/-- A directive with blanks where blanks belong, and options on lines of their own. -/
structure IsWellFormed (b : DirectiveBlock) : Prop where
  indent : ∀ c ∈ b.indent, isIndent c = true
  gap : b.gap ≠ [] ∧ ∀ c ∈ b.gap, isIndent c = true
  blanks : b.blanks.allBlank = true
  options : ∀ o ∈ b.options, o.IsWellFormed

/-- What stands below a directive goes on neither with an option nor, where there is none, with a
blank line. -/
structure EndsBefore (b : DirectiveBlock) (rest : Text) : Prop where
  option : ∀ (o : IndentedOption) (t : Text), o.IsWellFormed → rest ≠ o.line b.indent ++ t
  blank : b.options = [] → ∀ x t : Text, x.allBlank = true → rest ≠ x ++ '\n' :: t

/-- The directive as it is found in a page. -/
def found (b : DirectiveBlock) : Directive := ⟨b.options.map (·.option)⟩

variable {b : DirectiveBlock} {rest : Text}

/-- An option ends the blank lines above it. -/
theorem isGap_of_mem_optionLines {l : Text} (hl : l ∈ b.optionLines) :
    Directive.isGap l = false := by
  obtain ⟨o, -, rfl⟩ := List.mem_map.1 hl
  exact Directive.isGap_of_colon_mem (by simp [IndentedOption.line, OptionLine.text])

namespace EndsBefore

variable (hrest : b.EndsBefore rest)
include hrest

theorem read?_eq_none : ∀ l ∈ (Text.fullLines rest).head?, OptionLine.read? b.indent l = none := by
  intro l hl
  obtain ⟨k, ending, t, hk, hend, rfl, hrestEq⟩ := Text.exists_of_mem_head?_fullLines hl
  cases hend with
  | endOfText =>
    rw [List.append_nil]
    exact OptionLine.read?_of_notMem hk b.indent
  | lineFeed =>
    refine Option.eq_none_iff_forall_ne_some.2 fun option hread => ?_
    obtain ⟨o, ho, hline⟩ := IndentedOption.exists_of_read?_eq_some hk hread
    exact hrest.option o t ho (hline ▸ hrestEq)

/-- With no option, a directive ends at the first line that is not blank. -/
theorem isGap_eq_false (hnil : b.options = []) :
    ∀ l ∈ (Text.fullLines rest).head?, Directive.isGap l = false := by
  intro l hl
  obtain ⟨k, ending, t, hk, hend, rfl, hrestEq⟩ := Text.exists_of_mem_head?_fullLines hl
  refine Bool.eq_false_iff.2 fun hgap => ?_
  obtain ⟨hblank, hends⟩ := Bool.and_eq_true_iff.1 hgap
  cases hend with
  | endOfText =>
    rw [List.append_nil] at hends
    exact hk ((List.isSuffixOf_iff_suffix.1 hends).subset List.mem_cons_self)
  | lineFeed =>
    have hkBlank : Text.allBlank k = true :=
      List.all_eq_true.2 fun c hc => List.all_eq_true.1 hblank c (List.mem_append_left _ hc)
    refine hrest.blank hnil k t hkBlank ?_
    rw [hrestEq, List.append_assoc]
    rfl

theorem head?_eq_false :
    ∀ l ∈ (b.optionLines ++ Text.fullLines rest).head?, Directive.isGap l = false := by
  intro l hl
  rcases hoptions : b.options with _ | ⟨o, os⟩
  · have hnil : b.optionLines = [] := by rw [optionLines, hoptions]; rfl
    rw [hnil, List.nil_append] at hl
    exact hrest.isGap_eq_false hoptions l hl
  · have hcons : b.optionLines = o.line b.indent :: os.map (·.line b.indent) := by
      rw [optionLines, hoptions]
      rfl
    rw [hcons, List.cons_append, List.head?_cons] at hl
    obtain rfl := Option.some.inj hl
    exact isGap_of_mem_optionLines (hcons ▸ List.mem_cons_self)

end EndsBefore

namespace IsWellFormed

variable (hb : b.IsWellFormed)
include hb

theorem break_notMem_indent : '\n' ∉ b.indent := fun h => absurd (hb.indent _ h) (by decide)

theorem break_notMem_head : '\n' ∉ b.head := by
  have hmark : '\n' ∉ Directive.mark := by decide
  have hgap : '\n' ∉ b.gap := fun h => absurd (hb.gap.2 _ h) (by decide)
  simp [head, hb.break_notMem_indent, hmark, hgap]

/-- The line that a directive begins with opens it. -/
theorem opening?_head {k : Text} (hk : k.allBlank = true) :
    Directive.opening? (b.head ++ (k ++ ['\n'])) = some b.indent := by
  obtain ⟨hblank, -⟩ := Bool.and_eq_true_iff.1 (Directive.isGap_append_break hk)
  have hends : Text.endsWith (b.head ++ (k ++ ['\n'])) ['\n'] = true := by
    rw [← List.append_assoc]
    exact Text.endsWith_append _ _
  have hline : b.head ++ (k ++ ['\n']) = b.indent ++ ':' :: ("::".toList ++
      (b.gap ++ 'd' :: ("oxygen:bindgen".toList ++ (k ++ ['\n'])))) := by
    simp [head, Directive.mark]
  have hmark (t : Text) : Text.after? Directive.mark (':' :: ("::".toList ++ t)) = some t :=
    Text.after?_append Directive.mark t
  have hname (t : Text) : Text.after? "doxygen:bindgen".toList
      ('d' :: ("oxygen:bindgen".toList ++ t)) = some t :=
    Text.after?_append "doxygen:bindgen".toList t
  obtain ⟨hindent, hrest⟩ := Text.span_append_cons hb.indent
    (by decide : isIndent ':' = false)
    ("::".toList ++ (b.gap ++ 'd' :: ("oxygen:bindgen".toList ++ (k ++ ['\n']))))
  obtain ⟨hgap, hafter⟩ := Text.span_append_cons hb.gap.2
    (by decide : isIndent 'd' = false) ("oxygen:bindgen".toList ++ (k ++ ['\n']))
  have hgapNe : b.gap.isEmpty = false := List.isEmpty_eq_false_iff.2 hb.gap.1
  rw [Directive.opening?, hends, hline, hrest, hmark, hindent]
  simp only [Option.bind_eq_bind, Option.bind_some, hgap, hafter, hname, hblank, hgapNe]
  rfl

theorem fullLines_optionLines (rest : Text) :
    Text.fullLines (b.optionLines.flatten ++ rest) = b.optionLines ++ Text.fullLines rest := by
  refine Text.fullLines_flatten_append (fun l hl => ?_) rest
  obtain ⟨o, ho, rfl⟩ := List.mem_map.1 hl
  exact (hb.options o ho).exists_line_eq hb.break_notMem_indent

/-- The lines of a directive: the one that opens it, blank lines, and those of the options. -/
theorem fullLines_text (rest : Text) :
    ∃ l gaps, Directive.opening? l = some b.indent ∧ (∀ g ∈ gaps, Directive.isGap g = true) ∧
      Text.fullLines (b.text ++ rest) =
        l :: (gaps ++ (b.optionLines ++ Text.fullLines rest)) := by
  obtain ⟨k, ks, hblanks⟩ := Text.lines_eq_cons b.blanks
  have hblank : ∀ l ∈ b.blanks.lines, l.allBlank = true := fun l hl =>
    List.all_eq_true.2 fun c hc => List.all_eq_true.1 hb.blanks c (Text.mem_of_mem_lines hl hc)
  rw [hblanks, List.forall_mem_cons] at hblank
  have hlines : Text.lines (b.head ++ b.blanks) = (b.head ++ k) :: ks :=
    Text.lines_append_of_notMem hb.break_notMem_head hblanks
  refine ⟨b.head ++ (k ++ ['\n']), ks.map (· ++ ['\n']), hb.opening?_head hblank.1, ?_, ?_⟩
  · intro g hg
    obtain ⟨m, hm, rfl⟩ := List.mem_map.1 hg
    exact Directive.isGap_append_break (hblank.2 m hm)
  · rw [text, ← List.append_assoc, List.append_assoc (b.head ++ b.blanks), List.cons_append,
      Text.fullLines_append_break_eq, hlines, hb.fullLines_optionLines]
    simp

/-- A directive is found with all its lines. -/
theorem find?_text (hrest : b.EndsBefore rest) {l : Text} {gaps : List Text}
    (hopening : Directive.opening? l = some b.indent)
    (hgaps : ∀ g ∈ gaps, Directive.isGap g = true) :
    Directive.find? (l :: (gaps ++ (b.optionLines ++ Text.fullLines rest))) =
      some (b.found, (gaps ++ b.optionLines).length) := by
  obtain ⟨htake, hdrop⟩ := Text.span_append hgaps hrest.head?_eq_false
  have hoptions : Directive.optionLines b.indent (b.optionLines ++ Text.fullLines rest) =
      b.found.options := IndentedOption.optionLines_append hb.options hrest.read?_eq_none
  rw [Directive.find?, hopening]
  simp only [htake, hdrop, hoptions]
  simp [found, optionLines]

/-- The directive is cut out, and what follows it is gone through as if the page began there. -/
theorem cut_text (hrest : b.EndsBefore rest) :
    cut Directive.find? 0 (Text.fullLines (b.text ++ rest)) =
      .block b.found :: cut Directive.find? 0 (Text.fullLines rest) := by
  obtain ⟨l, gaps, hopening, hgaps, hlines⟩ := hb.fullLines_text rest
  rw [hlines, cut_of_find? (hb.find?_text hrest hopening hgaps), ← List.append_assoc, cut_taken]

end IsWellFormed

end DirectiveBlock

end DoxygenMarkdown.Site

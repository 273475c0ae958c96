import DoxygenMarkdown.Proofs.Site.DirectiveBlock
import DoxygenMarkdown.Proofs.Site.Step
import DoxygenMarkdown.Proofs.Text.Blank

/-!
# The options of a directive

Wherever a directive stands in a page, all of its lines are replaced, by what the directive asks
for, and the text above and below is gone through as if it stood alone. Each option has the value
that the last line with its key sets: **`replaceDirectives_text`**.

This needs a value on every line but the last one. The value of an option that has none is looked
for on the line below, and that line is then not read by itself. So the options are read line by
line in no other case (`settings_eq_said_iff`).
-/

namespace DoxygenMarkdown.Site

/-! ## What lines set, each on its own -/

namespace OptionLine

/-- The keys and values that lines set if no line takes anything from another. A line with nothing
behind its key sets nothing. -/
def said (os : List OptionLine) : List (Text × Text) :=
  os.filterMap fun o => if o.rest = [] then none else some (o.key, o.rest.trim)

theorem said_cons_of_eq_nil {o : OptionLine} (h : o.rest = []) (os : List OptionLine) :
    said (o :: os) = said os := by
  rw [said, List.filterMap_cons, if_pos h]
  rfl

theorem said_cons {o : OptionLine} (h : o.rest ≠ []) (os : List OptionLine) :
    said (o :: os) = (o.key, o.rest.trim) :: said os := by
  rw [said, List.filterMap_cons, if_neg h]
  rfl

theorem rest_ne_nil {o : OptionLine} (h : o.rest.allBlank = false) : o.rest ≠ [] := by
  intro hnil
  rw [hnil] at h
  cases h

/-- A line is more than its value: it has two colons before it. -/
theorem trim_text_ne_trim_rest (o : OptionLine) : o.text.trim ≠ o.rest.trim := by
  intro h
  have hcount := congrArg (List.count ':') h
  rw [Text.count_trim (by decide), Text.count_trim (by decide), text, List.cons_append,
    List.count_cons_self, List.count_append, List.count_cons_self] at hcount
  omega

theorem trim_text_ne_nil (o : OptionLine) : o.text.trim ≠ [] :=
  List.ne_nil_of_mem (Text.mem_trim (c := ':') (by decide) List.mem_cons_self)

/-- The value of each key is the one that its last line sets. -/
theorem lookup_reverse_said (os : List OptionLine) (key : Text) :
    (said os).reverse.lookup key =
      (os.filter fun o => o.key = key ∧ o.rest ≠ []).getLast?.map (·.rest.trim) := by
  induction os with
  | nil => rfl
  | cons o os ih =>
    by_cases hrest : o.rest = []
    · rw [said_cons_of_eq_nil hrest, ih, List.filter_cons_of_neg (by simp [hrest])]
    · rw [said_cons hrest, List.reverse_cons, List.lookup_append, ih, List.lookup_cons]
      by_cases hkey : o.key = key
      · rw [List.filter_cons_of_pos (by simp [hkey, hrest]), List.getLast?_cons, hkey]
        cases (os.filter fun o => o.key = key ∧ o.rest ≠ []).getLast? <;> simp
      · rw [List.filter_cons_of_neg (by simp [hkey]), beq_eq_false_iff_ne.2 (Ne.symm hkey)]
        exact Option.or_none

theorem settings_singleton (o : OptionLine) : settings [o] = said [o] := by
  by_cases hrest : o.rest = []
  · rw [settings, if_pos (List.isEmpty_iff.2 hrest), said_cons_of_eq_nil hrest]
    rfl
  · rw [settings, if_neg fun hempty => hrest (List.isEmpty_iff.1 hempty), said_cons hrest]
    rfl

/-- If every line but the last has a value, each line is read on its own. -/
theorem settings_eq_said {os : List OptionLine}
    (h : ∀ o ∈ os.dropLast, o.rest.allBlank = false) : settings os = said os := by
  induction os using settings.induct with
  | case1 => rfl
  | case2 o | case3 o => exact settings_singleton o
  | case4 o next os hblank ih =>
    rw [h o List.mem_cons_self] at hblank
    cases hblank
  | case5 o next os hvalue ih =>
    rw [List.dropLast_cons_cons, List.forall_mem_cons] at h
    rw [settings, if_neg hvalue, ih h.2, said_cons (rest_ne_nil h.1)]

/-- The number of values that are not empty. -/
def valueCount (kvs : List (Text × Text)) : Nat := kvs.countP (·.2 ≠ [])

theorem valueCount_cons (kv : Text × Text) (kvs : List (Text × Text)) :
    valueCount (kv :: kvs) = valueCount kvs + if kv.2 ≠ [] then 1 else 0 := by
  simp [valueCount, List.countP_cons]

theorem valueCount_cons_text (key : Text) (o : OptionLine) (kvs : List (Text × Text)) :
    valueCount ((key, o.text.trim) :: kvs) = valueCount kvs + 1 := by
  rw [valueCount_cons, if_pos (trim_text_ne_nil o)]

theorem valueCount_said_cons_of_blank {o : OptionLine} (h : o.rest.allBlank = true)
    (os : List OptionLine) : valueCount (said (o :: os)) = valueCount (said os) := by
  by_cases hrest : o.rest = []
  · rw [said_cons_of_eq_nil hrest]
  · rw [said_cons hrest, valueCount_cons, Text.trim_of_allBlank h]
    rfl

theorem valueCount_said_cons_le (o : OptionLine) (os : List OptionLine) :
    valueCount (said (o :: os)) ≤ valueCount (said os) + 1 := by
  by_cases hrest : o.rest = []
  · rw [said_cons_of_eq_nil hrest]
    exact Nat.le_succ _
  · rw [said_cons hrest, valueCount_cons]
    split <;> omega

/-- A line that is taken for a value is one value less, but the option above it has one more. -/
theorem valueCount_said_le (os : List OptionLine) :
    valueCount (said os) ≤ valueCount (settings os) := by
  induction os using settings.induct with
  | case1 => exact Nat.le_refl _
  | case2 o | case3 o => exact Nat.le_of_eq (congrArg valueCount (settings_singleton o).symm)
  | case4 o next os hblank ih =>
    rw [settings, if_pos hblank, valueCount_said_cons_of_blank hblank, valueCount_cons_text]
    exact Nat.le_trans (valueCount_said_cons_le next os) (Nat.succ_le_succ ih)
  | case5 o next os hvalue ih =>
    have hrest := rest_ne_nil (Bool.eq_false_iff.2 hvalue)
    rw [settings, if_neg hvalue, said_cons hrest, valueCount_cons, valueCount_cons]
    exact Nat.add_le_add_right ih _

/-- **Lines are read each on its own exactly if they have values**, apart from the last one. -/
theorem settings_eq_said_iff {os : List OptionLine} :
    settings os = said os ↔ ∀ o ∈ os.dropLast, o.rest.allBlank = false := by
  refine ⟨fun h => ?_, settings_eq_said⟩
  induction os using settings.induct with
  | case1 => simp
  | case2 o | case3 o => simp
  | case4 o next os hblank ih =>
    exfalso
    rw [settings, if_pos hblank] at h
    by_cases hnext : next.rest.allBlank = true
    · -- neither of the two lines has a value, but one is set
      have hcount := congrArg valueCount h
      rw [valueCount_said_cons_of_blank hblank, valueCount_said_cons_of_blank hnext,
        valueCount_cons_text] at hcount
      have hle := valueCount_said_le os
      omega
    · -- what is set first is the line below, and not the value on it
      have hnext := rest_ne_nil (Bool.eq_false_iff.2 hnext)
      by_cases hrest : o.rest = []
      · rw [said_cons_of_eq_nil hrest, said_cons hnext] at h
        exact trim_text_ne_trim_rest next (Prod.mk.inj (List.cons.inj h).1).2
      · rw [said_cons hrest, Text.trim_of_allBlank hblank] at h
        exact trim_text_ne_nil next (Prod.mk.inj (List.cons.inj h).1).2
  | case5 o next os hvalue ih =>
    have hvalue := Bool.eq_false_iff.2 hvalue
    rw [settings, if_neg (Bool.eq_false_iff.1 hvalue), said_cons (rest_ne_nil hvalue)] at h
    rw [List.dropLast_cons_cons, List.forall_mem_cons]
    exact ⟨hvalue, ih (List.cons.inj h).2⟩

end OptionLine

/-! ## Pages with a directive -/

/-- Parts are replaced one after the other. -/
theorem assemble_append {β : Type} (replace : β → Step Text) (ps qs : List (Part β)) :
    assemble replace (ps ++ qs) = (do
      let t ← assemble replace ps
      let u ← assemble replace qs
      pure (t ++ u)) := by
  induction ps with
  | nil => simp [assemble]
  | cons part ps ih =>
    cases part <;>
      simp only [List.cons_append, assemble, ih, bind_assoc, pure_bind, List.append_assoc]

/-- What the last line with some key says, if lines that say nothing do not count. -/
def DirectiveBlock.lastValue? (b : DirectiveBlock) (key : String) : Option Text :=
  (b.found.options.filter fun o => o.key = key.toList ∧ o.rest ≠ []).getLast?.map (·.rest.trim)

/-- Every line of a directive has a value, apart from the last one. -/
def DirectiveBlock.HasValues (b : DirectiveBlock) : Prop :=
  ∀ o ∈ b.found.options.dropLast, o.rest.allBlank = false

/-- **The options of a directive are read line by line.** All lines of a directive are replaced, and
nothing else of the page is touched. What it is replaced by depends on the values that the last line
with each key sets, if there is a value on every line but the last. -/
theorem replaceDirectives_text (files : Files) (site : Site) (page : Page) {b : DirectiveBlock}
    (hb : b.IsWellFormed) {above below : Text}
    (habove : above ≠ [] → above.endsWith ['\n'] = true) (hbelow : b.EndsBefore below) :
    (replaceDirectives files site page (above ++ (b.text ++ below)) = do
        let t ← replaceDirectives files site page above
        let u ← replaceDirective files site page b.found
        let v ← replaceDirectives files site page below
        pure (t ++ (u ++ v))) ∧
      (b.HasValues → ∀ key, b.found.value? key = b.lastValue? key) := by
  constructor
  · obtain ⟨l, gaps, hopening, -, hlines⟩ := hb.fullLines_text below
    have hcut : cut Directive.find? 0 (Text.fullLines (above ++ (b.text ++ below))) =
        cut Directive.find? 0 (Text.fullLines above) ++
          .block b.found :: cut Directive.find? 0 (Text.fullLines below) := by
      rw [← hb.cut_text hbelow, Text.fullLines_append_of_endsWith habove, hlines]
      exact cut_append (Directive.find?_append hopening _) Directive.find?_le (Nat.zero_le _)
    rw [replaceDirectives, hcut, assemble_append, assemble]
    simp only [bind_assoc, pure_bind]
    rfl
  · intro hvalues key
    rw [Directive.value?, OptionLine.settings_eq_said hvalues]
    exact OptionLine.lookup_reverse_said b.found.options key.toList

/-- A file that is named twice, and a line at the end of the page that sets no option. -/
theorem replaceDirectives_text_twice :
    ((replaceDirectives (FileTree.read {}) {} { markdown := [], path := "index.md".toList }
        ("Intro\n::: doxygen:bindgen \n\n  :file: a.rs\n\t:file:  b.rs \n  :name:\n" ++
          "  :heading_level: 3").toList).exec { cache := [] }).1.toOption =
      some ("Intro\n<!-- doxyrs: file not found: b.rs -->\n  :heading_level: 3").toList ∧
    Directive.value? ⟨[⟨"file".toList, " a.rs".toList⟩, ⟨"file".toList, "  b.rs ".toList⟩,
        ⟨"name".toList, []⟩]⟩ "file" = some "b.rs".toList := by
  let b : DirectiveBlock := {
    indent := []
    gap := [' ']
    blanks := " \n".toList
    options := [⟨"  ".toList, "file".toList, " a.rs".toList⟩,
      ⟨"\t".toList, "file".toList, "  b.rs ".toList⟩, ⟨"  ".toList, "name".toList, []⟩] }
  have hb : b.IsWellFormed := by
    refine ⟨by decide, by decide, by decide, fun o ho => ?_⟩
    simp only [b, List.mem_cons, List.not_mem_nil, or_false] at ho
    rcases ho with rfl | rfl | rfl <;> exact ⟨by decide, by decide, by decide⟩
  have habove : "Intro\n".toList ≠ [] → Text.endsWith "Intro\n".toList ['\n'] = true := by
    decide
  have hbelow : b.EndsBefore "  :heading_level: 3".toList := by
    have hbreak : '\n' ∉ "  :heading_level: 3".toList := by decide
    refine ⟨fun o t _ h => hbreak ?_, fun h => nomatch h⟩
    rw [h]
    simp [IndentedOption.line]
  have hvalues : b.HasValues := by
    intro o ho
    have ho : o ∈ [OptionLine.mk "file".toList " a.rs".toList,
      OptionLine.mk "file".toList "  b.rs ".toList] := ho
    simp only [List.mem_cons, List.not_mem_nil, or_false] at ho
    rcases ho with rfl | rfl <;> decide
  have hpage : ("Intro\n::: doxygen:bindgen \n\n  :file: a.rs\n\t:file:  b.rs \n  :name:\n" ++
      "  :heading_level: 3").toList =
        "Intro\n".toList ++ (b.text ++ "  :heading_level: 3".toList) := by
    decide +kernel
  obtain ⟨htext, hvalue⟩ := replaceDirectives_text (FileTree.read {}) {}
    { markdown := [], path := "index.md".toList } hb habove hbelow
  refine ⟨?_, (hvalue hvalues "file").trans (by decide +kernel)⟩
  rw [hpage, htext]
  decide +kernel

/-- The value of an option without one is taken from the line below, which sets nothing then. -/
theorem render_takes_line_below :
    (render {} {} {
        markdown := "::: doxygen:bindgen\n  :file:\n  :name: x\n".toList
        path := "index.md".toList }).result.toOption =
      some "<!-- doxyrs: file not found: :name: x -->\n".toList ∧
    Directive.value? ⟨[⟨"file".toList, []⟩, ⟨"name".toList, " x".toList⟩]⟩ "name" = none ∧
    -- at the end of a page, a line without a line feed is none of the options
    (render {} {} {
        markdown := "::: doxygen:bindgen\n  :file: b.rs".toList
        path := "index.md".toList }).result.toOption =
      some "<!-- doxyrs: missing :file: for doxygen:bindgen -->\n  :file: b.rs".toList := by
  decide +kernel

end DoxygenMarkdown.Site

import DoxygenMarkdown.Proofs.Bindings.Segmentation
import DoxygenMarkdown.Proofs.Tag
import Mathlib.Data.List.TakeWhile

/-!
# The item that a run documents

A declaration is spelled as words with gaps between them: a visibility, the words that say what is
declared, and the name (`Declares`). Where the first line below a run that is neither blank nor an
attribute is a declaration, the run documents the item of that name, with one exception.

The words `unsafe` and `extern "C"` in front of `fn` are passed over, but `const` is not: it
declares an item by itself, so the word behind it is taken for the name. A constant function is
therefore never found by its name, and any other item always is: **`item_eq_iff`**.

All words here are made of the characters that names are made of, so where a word is looked for and
another one stands, the two differ before either ends (`exists_wordChar`). This is why it does not
matter that some words begin like others.
-/

namespace DoxygenMarkdown.Bindings

/-! ## How a declaration is spelled -/

/-- Blanks between two words: there is one at least. -/
def IsGap (t : Text) : Prop := t ≠ [] ∧ t.allBlank = true

/-- Words, each with a gap behind it. -/
inductive IsSpelled : (words : List String) → Text → Prop
  | nil : IsSpelled [] []
  | cons {word : String} {words : List String} {gap t : Text} (hgap : IsGap gap)
    (ht : IsSpelled words t) : IsSpelled (word :: words) (word.toList ++ gap ++ t)

/-- Who may see an item, with the gap behind it. -/
inductive IsVisibility : Text → Prop
  | unsaid : IsVisibility []
  | everywhere {gap : Text} (hgap : IsGap gap) : IsVisibility ("pub".toList ++ gap)
  | within {place gap : Text} (hplace : ')' ∉ place) (hgap : IsGap gap) :
    IsVisibility ("pub".toList ++ '(' :: (place ++ ')' :: gap))

/-- The words in front of the name of a function. -/
def functionWords (constant unchecked foreign : Bool) : List String :=
  (if constant then ["const"] else []) ++ (if unchecked then ["unsafe"] else []) ++
    (if foreign then ["extern", "\"C\""] else []) ++ ["fn"]

/-- The words in front of the name of any other item. -/
def itemWords : List (List String) :=
  [["struct"], ["enum"], ["union"], ["const"], ["static"], ["static", "mut"], ["type"], ["mod"]]

/-- The words that are no names. -/
def keywords : List String :=
  ["pub", "const", "unsafe", "extern", "fn", "struct", "enum", "union", "static", "mut", "type",
    "mod"]

/-- A name of an item. -/
structure IsName (t : Text) : Prop where
  ne_nil : t ≠ []
  wordChar : ∀ c ∈ t, isWordChar c = true
  notKeyword : ∀ word ∈ keywords, word.toList ≠ t

/-- What may stand behind a word: anything that does not go on with it. -/
def EndsWord (rest : Text) : Prop := ∀ c ∈ rest.head?, isWordChar c = false

/-- A line that declares an item of some name. It is told apart whether the item is a constant
function. -/
inductive Declares (name : Text) : (constantFunction : Bool) → (line : Text) → Prop
  | function {indent visibility head rest : Text} (constant unchecked foreign : Bool)
    (hindent : indent.allBlank = true) (hvisibility : IsVisibility visibility)
    (hhead : IsSpelled (functionWords constant unchecked foreign) head) (hname : IsName name)
    (hrest : EndsWord rest) :
    Declares name constant (indent ++ (visibility ++ (head ++ (name ++ rest))))
  | item {indent visibility head rest : Text} {words : List String}
    (hindent : indent.allBlank = true) (hvisibility : IsVisibility visibility)
    (hwords : words ∈ itemWords) (hhead : IsSpelled words head) (hname : IsName name)
    (hrest : EndsWord rest) :
    Declares name false (indent ++ (visibility ++ (head ++ (name ++ rest))))
  | field {indent gap blanks rest : Text} (hindent : indent.allBlank = true) (hgap : IsGap gap)
    (hname : IsName name) (hblanks : blanks.allBlank = true) :
    Declares name false (indent ++ ("pub".toList ++ gap ++ (name ++ (blanks ++ ':' :: rest))))

/-- A line that may stand between a run and its item. -/
def IsPassedOver (line : Text) : Prop :=
  line.allBlank = true ∨
    ∃ indent rest : Text, indent.allBlank = true ∧ line = indent ++ ("#[".toList ++ rest)

/-! ## Words and gaps -/

theorem isWordChar_of_isBlank {c : Char} (h : isBlank c = true) : isWordChar c = false := by
  have hcodes : ∀ n ∈ Text.blankCodes, isWordChar (Char.ofNat n) = false := by decide +kernel
  have hc := hcodes _ (Text.toNat_mem_blankCodes h)
  rwa [Char.ofNat_toNat] at hc

theorem not_blank_of_isWordChar {c : Char} (h : isWordChar c = true) : isBlank c = false := by
  rcases hb : isBlank c with _ | _
  · rfl
  · rw [isWordChar_of_isBlank hb] at h
    cases h

theorem isWordChar_of_mem_keywords {word : String} (h : word ∈ keywords) :
    word.toList ≠ [] ∧ ∀ c ∈ word.toList, isWordChar c = true := by
  have hall : ∀ word ∈ keywords, word.toList ≠ [] ∧ ∀ c ∈ word.toList, isWordChar c = true := by
    decide +kernel
  exact hall word h

/-- A text that begins with a character that is not blank, if it is not empty. -/
def BeginsText (t : Text) : Prop := ∀ c ∈ t.head?, isBlank c = false

theorem beginsText_append {word : Text} (hne : word ≠ []) (h : ∀ c ∈ word, isBlank c = false)
    (rest : Text) : BeginsText (word ++ rest) := by
  obtain ⟨c, word, rfl⟩ := List.exists_cons_of_ne_nil hne
  intro d hd
  obtain rfl : c = d := Option.some.inj hd
  exact h c List.mem_cons_self

theorem IsName.beginsText {name : Text} (h : IsName name) (rest : Text) :
    BeginsText (name ++ rest) :=
  beginsText_append h.ne_nil (fun c hc => not_blank_of_isWordChar (h.wordChar c hc)) rest

theorem IsGap.exists_cons {gap : Text} (h : IsGap gap) :
    ∃ c blanks, gap = c :: blanks ∧ isBlank c = true ∧ Text.allBlank blanks = true := by
  obtain ⟨c, blanks, rfl⟩ := List.exists_cons_of_ne_nil h.1
  have hall := h.2
  rw [Text.allBlank, List.all_cons, Bool.and_eq_true] at hall
  exact ⟨c, blanks, rfl, hall⟩

theorem IsGap.endsWord {gap : Text} (h : IsGap gap) (t : Text) : EndsWord (gap ++ t) := by
  obtain ⟨c, blanks, rfl, hc, -⟩ := h.exists_cons
  intro d hd
  obtain rfl : c = d := Option.some.inj hd
  exact isWordChar_of_isBlank hc

theorem trimStart_append {blanks t : Text} (hblanks : blanks.allBlank = true)
    (ht : BeginsText t) : Text.trimStart (blanks ++ t) = t :=
  (Text.span_append (List.all_eq_true.1 hblanks) ht).2

theorem afterBlanks?_append {gap t : Text} (hgap : IsGap gap) (ht : BeginsText t) :
    afterBlanks? (gap ++ t) = some t := by
  obtain ⟨c, blanks, rfl, hc, hblanks⟩ := hgap.exists_cons
  rw [List.cons_append, afterBlanks?, if_pos hc, trimStart_append hblanks ht]

theorem afterWord?_append (word : String) {gap t : Text} (hgap : IsGap gap) (ht : BeginsText t) :
    afterWord? word (word.toList ++ gap ++ t) = some t := by
  rw [afterWord?, List.append_assoc, Text.after?_append, Option.bind_some,
    afterBlanks?_append hgap ht]

section Name

variable {name rest : Text} (hname : ∀ c ∈ name, isWordChar c = true) (hrest : EndsWord rest)

include hname hrest

theorem takeWhile_isWordChar : (name ++ rest).takeWhile isWordChar = name :=
  (Text.span_append hname hrest).1

theorem name?_append (hne : name ≠ []) : name? (name ++ rest) = some name := by
  rw [name?, takeWhile_isWordChar hname hrest]
  exact if_neg fun h => hne (List.isEmpty_iff.1 h)

/-- Where a text begins with a word, but with more than that word, the next character belongs to a
word as well. -/
theorem exists_wordChar {word u : Text} (hword : ∀ c ∈ word, isWordChar c = true)
    (hne : word ≠ name) (h : Text.after? word (name ++ rest) = some u) :
    ∃ c v, u = c :: v ∧ isWordChar c = true := by
  rw [Text.after?_eq_some_iff] at h
  by_contra hnone
  have hends : EndsWord u := by
    intro c hc
    obtain ⟨v, rfl⟩ := List.head?_eq_some_iff.1 hc
    rcases hw : isWordChar c with _ | _
    · rfl
    · exact absurd ⟨c, v, rfl, hw⟩ hnone
  have htake := takeWhile_isWordChar hname hrest
  rw [h, takeWhile_isWordChar hword hends] at htake
  exact hne htake

theorem afterWord?_eq_none {word : String} (hword : word ∈ keywords) (hne : word.toList ≠ name) :
    afterWord? word (name ++ rest) = none := by
  rcases h : Text.after? word.toList (name ++ rest) with _ | u
  · rw [afterWord?, h]
    rfl
  · obtain ⟨c, v, rfl, hc⟩ :=
      exists_wordChar hname hrest (isWordChar_of_mem_keywords hword).2 hne h
    rw [afterWord?, h, Option.bind_some, afterBlanks?, not_blank_of_isWordChar hc]
    rfl

theorem skipWord_of_ne {word : String} (hword : word ∈ keywords) (hne : word.toList ≠ name) :
    skipWord word (name ++ rest) = name ++ rest := by
  rw [skipWord, afterWord?_eq_none hname hrest hword hne]
  rfl

theorem skipConvention_of_ne (hne : "extern".toList ≠ name) :
    skipConvention (name ++ rest) = name ++ rest := by
  rw [skipConvention, afterWord?_eq_none hname hrest (by decide) hne]
  rfl

theorem skipVisibility_of_ne (hne : "pub".toList ≠ name) :
    skipVisibility (name ++ rest) = name ++ rest := by
  rcases h : Text.after? "pub".toList (name ++ rest) with _ | u
  · rw [skipVisibility, h]
    rfl
  · obtain ⟨c, v, rfl, hc⟩ := exists_wordChar hname hrest (by decide) hne h
    have hbracket : skipBrackets (c :: v) = c :: v := by
      rw [skipBrackets.eq_2]
      rintro inside hinside
      obtain ⟨rfl, -⟩ := List.cons.inj hinside
      exact absurd hc (by decide)
    rw [skipVisibility, h, Option.bind_some, hbracket, afterBlanks?, not_blank_of_isWordChar hc]
    rfl

end Name

/-! ## What stands in front of a name -/

theorem beginsText_of_mem_keywords {word : String} (h : word ∈ keywords) (rest : Text) :
    BeginsText (word.toList ++ rest) := by
  obtain ⟨hne, hchars⟩ := isWordChar_of_mem_keywords h
  exact beginsText_append hne (fun c hc => not_blank_of_isWordChar (hchars c hc)) rest

theorem IsVisibility.beginsText {visibility t : Text} (h : IsVisibility visibility)
    (ht : BeginsText t) : BeginsText (visibility ++ t) := by
  cases h with
  | unsaid => exact ht
  | everywhere hgap =>
    rw [List.append_assoc]
    exact beginsText_of_mem_keywords (by decide) _
  | within hplace hgap =>
    rw [List.append_assoc]
    exact beginsText_of_mem_keywords (by decide) _

theorem skipVisibility_append {visibility t : Text} (h : IsVisibility visibility)
    (ht : BeginsText t) (hself : skipVisibility t = t) : skipVisibility (visibility ++ t) = t := by
  cases h with
  | unsaid => exact hself
  | @everywhere gap hgap =>
    have hbracket : skipBrackets (gap ++ t) = gap ++ t := by
      obtain ⟨c, blanks, rfl, hc, -⟩ := hgap.exists_cons
      rw [List.cons_append, skipBrackets.eq_2]
      rintro inside hinside
      obtain ⟨rfl, -⟩ := List.cons.inj hinside
      exact absurd hc (by decide)
    rw [skipVisibility, List.append_assoc, Text.after?_append, Option.bind_some, hbracket,
      afterBlanks?_append hgap ht]
    rfl
  | @within place gap hplace hgap =>
    have hinside : ∀ c ∈ place, decide (c ≠ ')') = true := fun c hc =>
      decide_eq_true fun heq => hplace (heq ▸ hc)
    have hbracket : skipBrackets ('(' :: (place ++ ')' :: (gap ++ t))) = gap ++ t := by
      rw [skipBrackets, (Text.span_append_cons hinside (by decide) (gap ++ t)).2]
    rw [skipVisibility, List.append_assoc, Text.after?_append, Option.bind_some, List.cons_append,
      List.append_assoc, List.cons_append, hbracket, afterBlanks?_append hgap ht]
    rfl

section Spelled

variable {word : String} {words : List String} {t u : Text}

/-- What stands behind the first of some words. -/
theorem IsSpelled.exists_eq (h : IsSpelled (word :: words) t) :
    ∃ gap t', IsGap gap ∧ IsSpelled words t' ∧ t = word.toList ++ gap ++ t' := by
  cases h with
  | cons hgap ht => exact ⟨_, _, hgap, ht, rfl⟩

theorem IsSpelled.eq_nil (h : IsSpelled [] t) : t = [] := by
  cases h
  rfl

/-- Some words end where the first of them does. -/
theorem IsSpelled.exists_endsWord (h : IsSpelled (word :: words) t) (u : Text) :
    ∃ rest, EndsWord rest ∧ t ++ u = word.toList ++ rest := by
  obtain ⟨gap, t', hgap, -, rfl⟩ := h.exists_eq
  refine ⟨gap ++ (t' ++ u), hgap.endsWord _, ?_⟩
  rw [List.append_assoc, List.append_assoc]

theorem IsSpelled.beginsText (h : IsSpelled words t) (hwords : ∀ w ∈ words.head?, w ∈ keywords)
    (hu : BeginsText u) : BeginsText (t ++ u) := by
  cases h with
  | nil => exact hu
  | cons hgap ht =>
    rw [List.append_assoc, List.append_assoc]
    exact beginsText_of_mem_keywords (hwords _ rfl) _

/-- The first of some words is found. -/
theorem IsSpelled.exists_afterWord? (h : IsSpelled (word :: words) t)
    (hwords : ∀ w ∈ words.head?, w ∈ keywords) (hu : BeginsText u) :
    ∃ t', IsSpelled words t' ∧ afterWord? word (t ++ u) = some (t' ++ u) := by
  obtain ⟨gap, t', hgap, ht', rfl⟩ := h.exists_eq
  refine ⟨t', ht', ?_⟩
  rw [List.append_assoc]
  exact afterWord?_append word hgap (ht'.beginsText hwords hu)

/-- No other word is found in front of some words. -/
theorem IsSpelled.afterWord?_eq_none (h : IsSpelled (word :: words) t) (hword : word ∈ keywords)
    {other : String} (hother : other ∈ keywords) (hne : other ≠ word) (u : Text) :
    afterWord? other (t ++ u) = none := by
  obtain ⟨rest, hrest, heq⟩ := h.exists_endsWord u
  rw [heq]
  exact Bindings.afterWord?_eq_none (isWordChar_of_mem_keywords hword).2 hrest hother
    fun h => hne (String.toList_inj.1 h)

theorem skipWord_spelled (h : IsSpelled (word :: words) t)
    (hwords : ∀ w ∈ words.head?, w ∈ keywords) (hu : BeginsText u) :
    ∃ t', IsSpelled words t' ∧ skipWord word (t ++ u) = t' ++ u := by
  obtain ⟨t', ht', hafter⟩ := h.exists_afterWord? hwords hu
  refine ⟨t', ht', ?_⟩
  rw [skipWord, hafter]
  rfl

theorem skipWord_spelled_of_ne (h : IsSpelled (word :: words) t) (hword : word ∈ keywords)
    {other : String} (hother : other ∈ keywords) (hne : other ≠ word) (u : Text) :
    skipWord other (t ++ u) = t ++ u := by
  rw [skipWord, h.afterWord?_eq_none hword hother hne]
  rfl

theorem skipConvention_spelled (h : IsSpelled ("extern" :: "\"C\"" :: words) t)
    (hwords : ∀ w ∈ words.head?, w ∈ keywords) (hu : BeginsText u) :
    ∃ t', IsSpelled words t' ∧ skipConvention (t ++ u) = t' ++ u := by
  obtain ⟨gap, t₁, hgap, ht₁, rfl⟩ := h.exists_eq
  obtain ⟨t', ht', hafter⟩ := ht₁.exists_afterWord? hwords hu
  refine ⟨t', ht', ?_⟩
  have hbegins : BeginsText (t₁ ++ u) := by
    obtain ⟨gap', t₂, -, -, rfl⟩ := ht₁.exists_eq
    rw [List.append_assoc, List.append_assoc]
    exact beginsText_append (by decide) (by decide) _
  rw [skipConvention, List.append_assoc, afterWord?_append "extern" hgap hbegins, Option.bind_some,
    hafter]
  rfl

theorem skipConvention_spelled_of_ne (h : IsSpelled (word :: words) t) (hword : word ∈ keywords)
    (hne : "extern" ≠ word) (u : Text) : skipConvention (t ++ u) = t ++ u := by
  rw [skipConvention, h.afterWord?_eq_none hword (by decide) hne]
  rfl

theorem skipVisibility_spelled (h : IsSpelled (word :: words) t) (hword : word ∈ keywords)
    (hne : "pub" ≠ word) (u : Text) : skipVisibility (t ++ u) = t ++ u := by
  obtain ⟨rest, hrest, heq⟩ := h.exists_endsWord u
  rw [heq]
  exact skipVisibility_of_ne (isWordChar_of_mem_keywords hword).2 hrest
    fun h => hne (String.toList_inj.1 h)

end Spelled

/-! ## The name of a declaration -/

/-- Where only one of some alternatives can give a result, it decides. -/
theorem findSome?_eq {α β : Type} {f : α → Option β} {l : List α} {a : α} (ha : a ∈ l)
    (hother : ∀ b ∈ l, b ≠ a → f b = none) : l.findSome? f = f a := by
  rcases hf : f a with _ | n
  · rw [List.findSome?_eq_none_iff]
    intro b hb
    by_cases heq : b = a
    · rw [heq, hf]
    · exact hother b hb heq
  · have hsome : (l.findSome? f).isSome = true :=
      List.findSome?_isSome_iff.2 ⟨a, ha, by rw [hf]; rfl⟩
    obtain ⟨m, hm⟩ := Option.isSome_iff_exists.1 hsome
    obtain ⟨b, hb, hfb⟩ := List.exists_of_findSome?_eq_some hm
    have heq : b = a := by
      by_contra hne
      rw [hother b hb hne] at hfb
      cases hfb
    rw [hm, ← hfb, heq, hf]

section Declared

variable {line t u n : Text} {word : String} {words : List String}

/-- What is left of a line before the word that says what it declares. -/
def behindQualifiers (line : Text) : Text :=
  skipConvention (skipWord "unsafe" (skipVisibility line.trimStart))

/-- A word that declares by itself makes the next word a name. -/
theorem declaredName?_of_declaring (hline : behindQualifiers line = t ++ u)
    (h : IsSpelled (word :: words) t) (hword : word ∈ declaringWords)
    (hwords : ∀ w ∈ words.head?, w ∈ keywords) (hu : BeginsText u)
    (hn : ∀ t', IsSpelled words t' → name? (t' ++ u) = some n) : declaredName? line = some n := by
  have hkeys : ∀ w ∈ declaringWords, w ∈ keywords := by decide
  obtain ⟨t', ht', hafter⟩ := h.exists_afterWord? hwords hu
  have hfind : (declaringWords.findSome? fun w => (afterWord? w (t ++ u)).bind name?) = some n := by
    rw [findSome?_eq hword, hafter, Option.bind_some, hn t' ht']
    intro v hv hne
    rw [h.afterWord?_eq_none (hkeys _ hword) (hkeys _ hv) hne]
    rfl
  rw [behindQualifiers] at hline
  rw [declaredName?, hline, hfind]
  rfl

/-- Any other word leaves it to the rules for static items. -/
theorem declaredName?_of_not_declaring (hline : behindQualifiers line = t)
    (h : ∀ v ∈ declaringWords, afterWord? v t = none) : declaredName? line = staticName? t := by
  have hfind : (declaringWords.findSome? fun w => (afterWord? w t).bind name?) = none := by
    rw [List.findSome?_eq_none_iff]
    intro v hv
    rw [h v hv]
    rfl
  rw [behindQualifiers] at hline
  rw [declaredName?, hline, hfind]
  rfl

/-- A word that neither is a qualifier nor sees to the visibility is the first one left. -/
theorem behindQualifiers_spelled {indent visibility head : Text}
    (hindent : indent.allBlank = true) (hvisibility : IsVisibility visibility)
    (hhead : IsSpelled (word :: words) head) (hword : word ∈ keywords) (hpub : "pub" ≠ word)
    (hu : BeginsText u) :
    behindQualifiers (indent ++ (visibility ++ (head ++ u))) =
      skipConvention (skipWord "unsafe" (head ++ u)) := by
  have hbegins : BeginsText (head ++ u) :=
    hhead.beginsText (fun w hw => Option.some.inj hw ▸ hword) hu
  rw [behindQualifiers, trimStart_append hindent (hvisibility.beginsText hbegins),
    skipVisibility_append hvisibility hbegins (skipVisibility_spelled hhead hword hpub u)]

/-- Where no qualifier comes first, nothing is passed over but the visibility. -/
theorem behindQualifiers_of_ne {indent visibility head : Text} (hindent : indent.allBlank = true)
    (hvisibility : IsVisibility visibility) (hhead : IsSpelled (word :: words) head)
    (hword : word ∈ keywords) (hne : ∀ other ∈ ["pub", "unsafe", "extern"], other ≠ word)
    (hu : BeginsText u) :
    behindQualifiers (indent ++ (visibility ++ (head ++ u))) = head ++ u := by
  rw [behindQualifiers_spelled hindent hvisibility hhead hword (hne _ (by decide)) hu,
    skipWord_spelled_of_ne hhead hword (by decide) (hne _ (by decide)),
    skipConvention_spelled_of_ne hhead hword (hne _ (by decide))]

end Declared

section Item

variable {indent visibility head name rest : Text}

/-- The qualifiers of a function are passed over, but for one. -/
theorem exists_skip_function {unchecked foreign : Bool}
    (h : IsSpelled (functionWords false unchecked foreign) head) {u : Text} (hu : BeginsText u) :
    ∃ t, IsSpelled ["fn"] t ∧ skipConvention (skipWord "unsafe" (head ++ u)) = t ++ u := by
  have function {t : Text} (ht : IsSpelled ["fn"] t) :
      ∃ t', IsSpelled ["fn"] t' ∧ skipConvention (t ++ u) = t' ++ u :=
    ⟨t, ht, skipConvention_spelled_of_ne ht (by decide) (by decide) u⟩
  cases unchecked with
  | false =>
    cases foreign with
    | false =>
      have h : IsSpelled ["fn"] head := h
      rw [skipWord_spelled_of_ne h (by decide) (by decide) (by decide)]
      exact function h
    | true =>
      have h : IsSpelled ["extern", "\"C\"", "fn"] head := h
      rw [skipWord_spelled_of_ne h (by decide) (by decide) (by decide)]
      exact skipConvention_spelled h (by decide) hu
  | true =>
    cases foreign with
    | false =>
      have h : IsSpelled ["unsafe", "fn"] head := h
      obtain ⟨t, ht, hskip⟩ := skipWord_spelled h (by decide) hu
      rw [hskip]
      exact function ht
    | true =>
      have h : IsSpelled ["unsafe", "extern", "\"C\"", "fn"] head := h
      obtain ⟨t, ht, hskip⟩ := skipWord_spelled h (by decide) hu
      rw [hskip]
      exact skipConvention_spelled ht (by decide) hu

/-- What a function is declared as begins with a keyword. -/
theorem exists_functionWords (constant unchecked foreign : Bool) :
    ∃ word words, functionWords constant unchecked foreign = word :: words ∧ word ∈ keywords ∧
      "pub" ≠ word := by
  cases constant <;> cases unchecked <;> cases foreign <;>
    exact ⟨_, _, rfl, by decide, by decide⟩

variable (hindent : indent.allBlank = true) (hvisibility : IsVisibility visibility)
  (hname : IsName name) (hrest : EndsWord rest)

include hindent hvisibility hname

/-- The word behind `const` is taken for a name, whatever it is. -/
theorem exists_declaredName?_constantFunction {unchecked foreign : Bool}
    (hhead : IsSpelled (functionWords true unchecked foreign) head) :
    ∃ word ∈ keywords,
      declaredName? (indent ++ (visibility ++ (head ++ (name ++ rest)))) = some word.toList := by
  have hbegins : BeginsText (name ++ rest) := hname.beginsText rest
  obtain ⟨word, words, hwords, hword, -⟩ := exists_functionWords false unchecked foreign
  have hhead : IsSpelled ("const" :: functionWords false unchecked foreign) head := hhead
  rw [hwords] at hhead
  have hline := behindQualifiers_of_ne hindent hvisibility hhead (by decide) (by decide) hbegins
  refine ⟨word, hword, declaredName?_of_declaring hline hhead (by decide)
    (fun w hw => Option.some.inj hw ▸ hword) hbegins ?_⟩
  intro t' ht'
  obtain ⟨rest', hrest', heq⟩ := ht'.exists_endsWord (name ++ rest)
  obtain ⟨hne, hchars⟩ := isWordChar_of_mem_keywords hword
  rw [heq, name?_append hchars hrest' hne]

include hrest

theorem declaredName?_function {unchecked foreign : Bool}
    (hhead : IsSpelled (functionWords false unchecked foreign) head) :
    declaredName? (indent ++ (visibility ++ (head ++ (name ++ rest)))) = some name := by
  have hbegins : BeginsText (name ++ rest) := hname.beginsText rest
  obtain ⟨t, ht, hskip⟩ := exists_skip_function hhead hbegins
  obtain ⟨word, words, hwords, hword, hpub⟩ := exists_functionWords false unchecked foreign
  rw [hwords] at hhead
  have hline := behindQualifiers_spelled hindent hvisibility hhead hword hpub hbegins
  refine declaredName?_of_declaring (hline.trans hskip) ht (by decide) (by decide) hbegins ?_
  intro t' ht'
  rw [ht'.eq_nil]
  exact name?_append hname.wordChar hrest hname.ne_nil

/-- A word that declares by itself stands right in front of the name. -/
theorem declaredName?_declaring {word : String} (hword : word ∈ declaringWords)
    (hhead : IsSpelled [word] head) :
    declaredName? (indent ++ (visibility ++ (head ++ (name ++ rest)))) = some name := by
  have hwords : ∀ w ∈ declaringWords,
      w ∈ keywords ∧ ∀ other ∈ ["pub", "unsafe", "extern"], other ≠ w := by decide
  obtain ⟨hkey, hne⟩ := hwords word hword
  have hbegins : BeginsText (name ++ rest) := hname.beginsText rest
  have hline := behindQualifiers_of_ne hindent hvisibility hhead hkey hne hbegins
  refine declaredName?_of_declaring hline hhead hword (by decide) hbegins fun t' ht' => ?_
  rw [ht'.eq_nil]
  exact name?_append hname.wordChar hrest hname.ne_nil

/-- A static item may be mutable. -/
theorem declaredName?_static {words : List String} (hwords : words ∈ [[], ["mut"]])
    (hhead : IsSpelled ("static" :: words) head) :
    declaredName? (indent ++ (visibility ++ (head ++ (name ++ rest)))) = some name := by
  have hother : ∀ w ∈ declaringWords, w ∈ keywords ∧ w ≠ "static" := by decide
  have hbegins : BeginsText (name ++ rest) := hname.beginsText rest
  have hfound : name? (name ++ rest) = some name :=
    name?_append hname.wordChar hrest hname.ne_nil
  have hline := behindQualifiers_of_ne hindent hvisibility hhead (by decide) (by decide) hbegins
  rw [declaredName?_of_not_declaring hline fun v hv =>
    hhead.afterWord?_eq_none (by decide) (hother v hv).1 (hother v hv).2 _]
  simp only [List.mem_cons, List.not_mem_nil, or_false] at hwords
  rcases hwords with rfl | rfl
  · obtain ⟨t, ht, hafter⟩ := hhead.exists_afterWord? (by decide) hbegins
    obtain rfl := ht.eq_nil
    have hmut : afterWord? "mut" (name ++ rest) = none :=
      afterWord?_eq_none hname.wordChar hrest (by decide) (hname.notKeyword _ (by decide))
    rw [staticName?, hafter, Option.bind_some, List.nil_append, hmut, hfound]
    rfl
  · obtain ⟨t, ht, hafter⟩ := hhead.exists_afterWord? (by decide) hbegins
    obtain ⟨t', ht', hmut⟩ := ht.exists_afterWord? (by decide) hbegins
    obtain rfl := ht'.eq_nil
    rw [staticName?, hafter, Option.bind_some, hmut, Option.bind_some, List.nil_append, hfound]
    rfl

theorem declaredName?_item {words : List String} (hwords : words ∈ itemWords)
    (hhead : IsSpelled words head) :
    declaredName? (indent ++ (visibility ++ (head ++ (name ++ rest)))) = some name := by
  have hkinds : ∀ ws ∈ itemWords,
      (∃ word ∈ declaringWords, ws = [word]) ∨ ∃ ws' ∈ [[], ["mut"]], ws = "static" :: ws' := by
    decide
  rcases hkinds words hwords with ⟨word, hword, rfl⟩ | ⟨behind, hbehind, rfl⟩
  · exact declaredName?_declaring hindent hvisibility hname hrest hword hhead
  · exact declaredName?_static hindent hvisibility hname hrest hbehind hhead

end Item

theorem beginsText_colon (rest : Text) : BeginsText (':' :: rest) := fun _ hc =>
  Option.some.inj hc ▸ (by decide)

theorem endsWord_append_colon {blanks : Text} (h : blanks.allBlank = true) (rest : Text) :
    EndsWord (blanks ++ ':' :: rest) := by
  rcases blanks with _ | ⟨b, blanks⟩
  · exact fun c hc => Option.some.inj hc ▸ (by decide)
  · exact IsGap.endsWord ⟨List.cons_ne_nil b blanks, h⟩ _

/-- A public field is no item, and its name is read by itself. -/
theorem declaredName?_field {indent gap name tail rest : Text} (hindent : indent.allBlank = true)
    (hgap : IsGap gap) (hname : IsName name) (htail : EndsWord tail)
    (hcolon : tail.trimStart = ':' :: rest) :
    declaredName? (indent ++ ("pub".toList ++ gap ++ (name ++ tail))) = none ∧
      fieldName? (indent ++ ("pub".toList ++ gap ++ (name ++ tail))) = some name := by
  have hbegins : BeginsText (name ++ tail) := hname.beginsText tail
  have hpub : IsVisibility ("pub".toList ++ gap) := .everywhere hgap
  have hstart : Text.trimStart (indent ++ ("pub".toList ++ gap ++ (name ++ tail))) =
      "pub".toList ++ gap ++ (name ++ tail) := trimStart_append hindent (hpub.beginsText hbegins)
  constructor
  · have hnone : ∀ word ∈ keywords, afterWord? word (name ++ tail) = none := fun word hword =>
      afterWord?_eq_none hname.wordChar htail hword (hname.notKeyword word hword)
    have hself : skipVisibility (name ++ tail) = name ++ tail :=
      skipVisibility_of_ne hname.wordChar htail (hname.notKeyword _ (by decide))
    have hline : behindQualifiers (indent ++ ("pub".toList ++ gap ++ (name ++ tail))) =
        name ++ tail := by
      rw [behindQualifiers, hstart, skipVisibility_append hpub hbegins hself,
        skipWord_of_ne hname.wordChar htail (by decide) (hname.notKeyword _ (by decide)),
        skipConvention_of_ne hname.wordChar htail (hname.notKeyword _ (by decide))]
    have hkeys : ∀ w ∈ declaringWords, w ∈ keywords := by decide
    rw [declaredName?_of_not_declaring hline fun v hv => hnone v (hkeys v hv), staticName?,
      hnone _ (by decide)]
    rfl
  · have hcut : (name ++ tail).dropWhile isWordChar = tail :=
      (Text.span_append hname.wordChar htail).2
    rw [fieldName?, hstart, afterWord?_append "pub" hgap hbegins, Option.bind_eq_bind,
      Option.bind_some, name?_append hname.wordChar htail hname.ne_nil, Option.bind_some, hcut,
      hcolon]
    rfl

/-! ## The first line that counts -/

/-- Every declaration begins with a keyword. -/
theorem Declares.exists_eq {name line : Text} {constantFunction : Bool}
    (h : Declares name constantFunction line) :
    ∃ indent word rest, Text.allBlank indent = true ∧ word ∈ keywords ∧
      line = indent ++ (word.toList ++ rest) := by
  have hpub : "pub" ∈ keywords := by decide
  have spelled {indent visibility head : Text} {word : String} {words : List String}
      (hindent : indent.allBlank = true) (hvisibility : IsVisibility visibility)
      (hhead : IsSpelled (word :: words) head) (hword : word ∈ keywords) (u : Text) :
      ∃ indent' word rest, Text.allBlank indent' = true ∧ word ∈ keywords ∧
        indent ++ (visibility ++ (head ++ u)) = indent' ++ (word.toList ++ rest) := by
    cases hvisibility with
    | unsaid =>
      obtain ⟨rest, -, heq⟩ := hhead.exists_endsWord u
      exact ⟨indent, word, rest, hindent, hword, by rw [List.nil_append, heq]⟩
    | everywhere hgap =>
      exact ⟨indent, "pub", _, hindent, hpub, by rw [List.append_assoc]⟩
    | within hplace hgap =>
      exact ⟨indent, "pub", _, hindent, hpub, by rw [List.append_assoc]⟩
  cases h with
  | function constant unchecked foreign hindent hvisibility hhead hname hrest =>
    obtain ⟨word, words, hwords, hword, -⟩ :=
      exists_functionWords constantFunction unchecked foreign
    rw [hwords] at hhead
    exact spelled hindent hvisibility hhead hword _
  | @item _ _ _ _ words hindent hvisibility hwords hhead hname hrest =>
    have hall : ∀ ws ∈ itemWords, ws ≠ [] ∧ ∀ w ∈ ws, w ∈ keywords := by decide
    obtain ⟨hne, hkeys⟩ := hall words hwords
    obtain ⟨word, words, rfl⟩ := List.exists_cons_of_ne_nil hne
    exact spelled hindent hvisibility hhead (hkeys word List.mem_cons_self) _
  | field hindent hgap hname hblanks =>
    exact ⟨_, "pub", _, hindent, hpub, by rw [List.append_assoc]⟩

theorem trimStart_of_declares {name line : Text} {constantFunction : Bool}
    (h : Declares name constantFunction line) :
    ∃ c t, line.trimStart = c :: t ∧ isWordChar c = true := by
  obtain ⟨indent, word, rest, hindent, hword, rfl⟩ := h.exists_eq
  rw [trimStart_append hindent (beginsText_of_mem_keywords hword rest)]
  obtain ⟨hne, hchars⟩ := isWordChar_of_mem_keywords hword
  obtain ⟨c, w, hw⟩ := List.exists_cons_of_ne_nil hne
  rw [hw] at hchars ⊢
  exact ⟨c, w ++ rest, rfl, hchars c List.mem_cons_self⟩

/-- A declaration decides which item a run documents. -/
theorem itemBelow_cons_of_declares {name line : Text} {constantFunction : Bool}
    (h : Declares name constantFunction line) (more : List Text) :
    itemBelow (line :: more) = ((declaredName? line).or (fieldName? line)).getD [] := by
  obtain ⟨c, t, hstart, hc⟩ := trimStart_of_declares h
  have hblank : line.allBlank = false := by
    rcases hall : line.allBlank with _ | _
    · rfl
    · have hnil : line.trimStart = [] := List.dropWhile_eq_nil_iff.2 (List.all_eq_true.1 hall)
      rw [hnil] at hstart
      cases hstart
  have hattribute : isAttribute line = false := by
    have hsign : '#' ≠ c := by
      rintro rfl
      exact absurd hc (by decide)
    have hafter : Text.after? "#[".toList (c :: t) = none := if_neg hsign
    rw [isAttribute, hstart, Text.startsWith, hafter]
    rfl
  rw [itemBelow, hblank, hattribute]
  rfl

theorem IsPassedOver.allBlank_or_isAttribute {line : Text} (h : IsPassedOver line) :
    line.allBlank = true ∨ isAttribute line = true := by
  refine h.imp id ?_
  rintro ⟨indent, rest, hindent, rfl⟩
  rw [isAttribute, trimStart_append hindent (beginsText_append (by decide) (by decide) rest),
    Text.startsWith, Text.after?_append]
  rfl

/-! ## The item of a run -/

/-- The lines below a run decide which item it documents. -/
theorem item_of_segments {source : Text} {above below : List Segment} {r : DocRun}
    (h : segments source = above ++ .run r :: below) :
    r.item = itemBelow (Segment.linesOf below) := by
  have hcut : Segment.IsCut (segments source) := Segment.isCut_ofLines 1 source.lines
  rw [h] at hcut
  cases hcut.of_append with
  | run hr hhead hbelow => exact hr.item_eq

/-- **A run documents the item that is declared below it**, unless that is a constant function, the
name of which is never found. -/
theorem item_eq_iff {source : Text} {above below : List Segment} {r : DocRun}
    {skipped more : List Text} {name line : Text} {constantFunction : Bool}
    (hsegments : segments source = above ++ .run r :: below)
    (hbelow : Segment.linesOf below = skipped ++ line :: more)
    (hskipped : ∀ l ∈ skipped, IsPassedOver l) (hline : Declares name constantFunction line) :
    r.item = name ↔ constantFunction = false := by
  have hpassed : ∀ l ∈ skipped, l.allBlank = true ∨ isAttribute l = true := fun l hl =>
    (hskipped l hl).allBlank_or_isAttribute
  rw [item_of_segments hsegments, hbelow, itemBelow_append hpassed,
    itemBelow_cons_of_declares hline]
  cases hline with
  | function constant unchecked foreign hindent hvisibility hhead hname hrest =>
    cases constantFunction with
    | false =>
      rw [declaredName?_function hindent hvisibility hname hrest hhead]
      exact iff_of_true rfl rfl
    | true =>
      obtain ⟨word, hword, hfound⟩ :=
        exists_declaredName?_constantFunction hindent hvisibility hname hhead
      rw [hfound]
      exact iff_of_false (hname.notKeyword word hword) Bool.noConfusion
  | item hindent hvisibility hwords hhead hname hrest =>
    rw [declaredName?_item hindent hvisibility hname hrest hwords hhead]
    exact iff_of_true rfl rfl
  | field hindent hgap hname hblanks =>
    obtain ⟨hnone, hfound⟩ := declaredName?_field hindent hgap hname
      (endsWord_append_colon hblanks _) (trimStart_append hblanks (beginsText_colon _))
    rw [hnone, hfound]
    exact iff_of_true rfl rfl

theorem isGap_singleton {c : Char} (h : isBlank c = true) : IsGap [c] :=
  ⟨List.cons_ne_nil c [], List.all_eq_true.2 (List.forall_mem_singleton.2 h)⟩

/-- A blank line and an attribute stand between the run and a function with qualifiers. -/
theorem item_eq_iff_foreign_function :
    let source :=
      "#[doc = \"x\"]\n\n  #[must_use]\npub(crate)\tunsafe extern \"C\" fn f<T>();".toList
    ∃ r below, segments source = .run r :: below ∧ r.item = "f".toList := by
  intro source
  let below : List Segment := [.other [], .other "  #[must_use]".toList,
    .other "pub(crate)\tunsafe extern \"C\" fn f<T>();".toList]
  have hsegments : segments source =
      [] ++ .run ⟨1, [], "x".toList, "f".toList, ["#[doc = \"x\"]".toList]⟩ :: below := by
    decide +kernel
  have hspace : IsGap [' '] := isGap_singleton rfl
  have hhead : IsSpelled (functionWords false true true)
      ("unsafe".toList ++ [' '] ++ ("extern".toList ++ [' '] ++ ("\"C\"".toList ++ [' '] ++
        ("fn".toList ++ [' '] ++ [])))) :=
    .cons hspace (.cons hspace (.cons hspace (.cons hspace .nil)))
  have hvisibility : IsVisibility ("pub".toList ++ '(' :: ("crate".toList ++ [')', '\t'])) :=
    .within (by decide) (isGap_singleton rfl)
  have hname : IsName "f".toList := ⟨by decide, by decide, by decide⟩
  have hrest : EndsWord "<T>();".toList := fun c hc => Option.some.inj hc ▸ (by decide)
  have hline : Declares "f".toList false "pub(crate)\tunsafe extern \"C\" fn f<T>();".toList :=
    .function false true true (Eq.refl (Text.allBlank [])) hvisibility hhead hname hrest
  have hskipped : ∀ l ∈ [[], "  #[must_use]".toList], IsPassedOver l :=
    List.forall_mem_cons.2 ⟨.inl rfl, List.forall_mem_singleton.2
      (.inr ⟨"  ".toList, "must_use]".toList, by decide, by decide⟩)⟩
  have hbelow : Segment.linesOf below = [[], "  #[must_use]".toList] ++
      "pub(crate)\tunsafe extern \"C\" fn f<T>();".toList :: [] := rfl
  exact ⟨_, _, hsegments, (item_eq_iff hsegments hbelow hskipped hline).2 rfl⟩

/-- A constant function is taken for an item of the name that the word behind `const` would be. -/
theorem item_of_constant_function :
    Declares "f".toList true "pub const fn f();".toList ∧
      segments "#[doc = \"x\"]\npub const fn f();".toList =
        [.run ⟨1, [], "x".toList, "fn".toList, ["#[doc = \"x\"]".toList]⟩,
          .other "pub const fn f();".toList] := by
  have hspace : IsGap [' '] := isGap_singleton rfl
  have hhead : IsSpelled (functionWords true false false)
      ("const".toList ++ [' '] ++ ("fn".toList ++ [' '] ++ [])) := .cons hspace (.cons hspace .nil)
  have hrest : EndsWord "();".toList := fun c hc => Option.some.inj hc ▸ (by decide)
  refine ⟨?_, by decide +kernel⟩
  exact Declares.function true false false (Eq.refl (Text.allBlank [])) (.everywhere hspace) hhead
    ⟨by decide, by decide, by decide⟩ hrest

end DoxygenMarkdown.Bindings

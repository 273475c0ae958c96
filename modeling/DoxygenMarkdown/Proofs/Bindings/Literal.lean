import DoxygenMarkdown.Proofs.Bindings.DocLine

/-!
# The literals of doc attributes

A body denotes a sequence of pieces (`Denotes`): a character denotes itself, an escape the character
that it stands for, and an escape that stands for none denotes itself, which is not the same as a
backslash with that character behind it. Put together, they are the text that the body says
(`Says`). A line is read as a doc attribute exactly if it is spelled as one, with such a body
between its quotes (`DocLine.read?_eq_some_iff`).

When a body is decoded and encoded again, what comes out is a body, but it does not always denote
the same. Decoding leaves an escape that stands for no character as it is written, and encoding
cannot know that its backslash was not meant as a character, so it escapes that too. This is the
only thing that goes wrong: **`denotes_encodeBody_decodeBody`**.
-/

namespace DoxygenMarkdown.Bindings

/-! ## What a body denotes -/

/-- The characters behind a backslash that make up an escape for a character. -/
def escapes : List (Char × Char) :=
  [('n', '\n'), ('t', '\t'), ('r', '\r'), ('0', '\x00'), ('"', '"'), ('\'', '\''), ('\\', '\\')]

/-- A body denotes pieces, read from left to right. No escape reaches across the end of a line. -/
inductive Denotes : (body : Text) → List Piece → Prop
  | nil : Denotes [] []
  | char {c : Char} {t : Text} {ps : List Piece} (hslash : c ≠ '\\') (hquote : c ≠ '"')
    (ht : Denotes t ps) : Denotes (c :: t) (.char c :: ps)
  | escape {c d : Char} {t : Text} {ps : List Piece} (hc : (c, d) ∈ escapes) (ht : Denotes t ps) :
    Denotes ('\\' :: c :: t) (.char d :: ps)
  | kept {c : Char} {t : Text} {ps : List Piece} (hc : ∀ d, (c, d) ∉ escapes) (hbreak : c ≠ '\n')
    (ht : Denotes t ps) : Denotes ('\\' :: c :: t) (.kept c :: ps)

variable {b t : Text} {ps : List Piece}

theorem mem_escapes_iff {c d : Char} : (c, d) ∈ escapes ↔ escaped? c = some d := by
  constructor
  · intro h
    simp only [escapes, List.mem_cons, Prod.mk.injEq, List.not_mem_nil, or_false] at h
    rcases h with h | h | h | h | h | h | h <;> obtain ⟨rfl, rfl⟩ := h <;> rfl
  · intro h
    unfold escaped? at h
    split at h <;> cases h <;> decide

theorem pieceOfEscape_of_mem {c d : Char} (h : (c, d) ∈ escapes) : pieceOfEscape c = .char d := by
  rw [pieceOfEscape, mem_escapes_iff.1 h]

theorem escaped?_eq_none {c : Char} (h : ∀ d, (c, d) ∉ escapes) : escaped? c = none :=
  Option.eq_none_iff_forall_ne_some.2 fun d hd => h d (mem_escapes_iff.2 hd)

theorem pieceOfEscape_of_notMem {c : Char} (h : ∀ d, (c, d) ∉ escapes) :
    pieceOfEscape c = .kept c := by
  rw [pieceOfEscape, escaped?_eq_none h]

/-- What a body denotes is what is read of it. -/
theorem Denotes.pieces_eq (h : Denotes b ps) : pieces b = ps := by
  induction h with
  | nil => rfl
  | char hslash _ _ ih => rw [pieces_cons hslash, ih]
  | escape hc _ ih => rw [pieces, pieceOfEscape_of_mem hc, ih]
  | kept hc _ _ ih => rw [pieces, pieceOfEscape_of_notMem hc, ih]

/-- A body says a text: the pieces that it denotes, as they stand in a text. -/
def Says (body t : Text) : Prop := ∃ ps, Denotes body ps ∧ t = ps.flatMap Piece.text

/-- A body is decoded as what it says. -/
theorem Denotes.says_decodeBody (h : Denotes b ps) : Says b (decodeBody b) :=
  ⟨ps, h, by rw [decodeBody, h.pieces_eq]⟩

theorem denotes_escape {c : Char} (hbreak : c ≠ '\n') (ht : Denotes t ps) :
    Denotes ('\\' :: c :: t) (pieceOfEscape c :: ps) := by
  by_cases hc : ∃ d, (c, d) ∈ escapes
  · obtain ⟨d, hd⟩ := hc
    rw [pieceOfEscape_of_mem hd]
    exact .escape hd ht
  · have hnone : ∀ d, (c, d) ∉ escapes := fun d hd => hc ⟨d, hd⟩
    rw [pieceOfEscape_of_notMem hnone]
    exact .kept hnone hbreak ht

/-- The quote behind a body is the first one that is not part of an escape. -/
theorem Denotes.readBody?_append (h : Denotes b ps) (rest : Text) :
    readBody? (b ++ '"' :: rest) = some (b, rest) := by
  induction h with
  | nil => rfl
  | char hslash hquote _ ih => rw [List.cons_append, readBody?_cons hslash hquote, ih]; rfl
  | escape _ _ ih => rw [List.cons_append, List.cons_append, readBody?, ih]; rfl
  | kept _ _ _ ih => rw [List.cons_append, List.cons_append, readBody?, ih]; rfl

/-- What is read up to a quote on the same line is a body. -/
theorem denotes_of_readBody? {rest : Text} (h : readBody? t = some (b, rest)) (hbreak : '\n' ∉ t) :
    Denotes b (pieces b) ∧ t = b ++ '"' :: rest := by
  induction t using readBody?.induct generalizing b with
  | case1 => cases h
  | case2 => cases h
  | case3 c t ih =>
    rw [readBody?, Option.map_eq_some_iff] at h
    obtain ⟨⟨b, rest'⟩, hread, heq⟩ := h
    obtain ⟨rfl, rfl⟩ := Prod.mk.inj heq
    rw [List.mem_cons, List.mem_cons, not_or, not_or] at hbreak
    obtain ⟨hdenotes, rfl⟩ := ih hread hbreak.2.2
    exact ⟨denotes_escape (Ne.symm hbreak.2.1) hdenotes, rfl⟩
  | case4 t hend hescape =>
    rw [readBody?.eq_4 _ _ hend hescape, if_pos rfl] at h
    obtain ⟨rfl, rfl⟩ := Prod.mk.inj (Option.some.inj h)
    exact ⟨.nil, rfl⟩
  | case5 c t hend hescape hquote ih =>
    -- a backslash is followed by another character, or it is the last one
    have hslash : c ≠ '\\' := by
      rintro rfl
      rcases t with _ | ⟨d, t⟩
      · exact hend rfl rfl
      · exact hescape d t rfl rfl
    rw [readBody?_cons hslash hquote, Option.map_eq_some_iff] at h
    obtain ⟨⟨b, rest'⟩, hread, heq⟩ := h
    obtain ⟨rfl, rfl⟩ := Prod.mk.inj heq
    obtain ⟨hdenotes, rfl⟩ := ih hread fun hmem => hbreak (List.mem_cons_of_mem c hmem)
    rw [pieces_cons hslash]
    exact ⟨.char hslash hquote hdenotes, rfl⟩

/-! ## Lines that are doc attributes -/

/-- A line is spelled as a doc attribute. -/
structure DocLine.Spells (d : DocLine) (line : Text) : Prop where
  indent : ∀ c ∈ d.indent, isBlank c = true
  body : ∃ ps, Denotes d.body ps
  line_eq : ∃ x y z : Text, (∀ c ∈ x, isBlank c = true) ∧ (∀ c ∈ y, isBlank c = true) ∧
    (∀ c ∈ z, isBlank c = true) ∧ line = d.indent ++ ("#[doc".toList ++ (x ++ '=' ::
      (y ++ '"' :: (d.body ++ '"' :: ']' :: z))))

theorem DocLine.spells_of_read? {line : Text} (hbreak : '\n' ∉ line) {d : DocLine}
    (h : read? line = some d) : d.Spells line := by
  have hindent := blank_of_read? h
  have hline : line = d.indent ++ line.trimStart := by
    rw [indent_of_read? h]
    exact List.takeWhile_append_dropWhile.symm
  simp only [read?, Option.bind_eq_bind, Option.bind_eq_some_iff, Text.after?_eq_some_iff] at h
  obtain ⟨r₁, h₁, r₂, h₂, r₃, h₃, ⟨body, r₄⟩, hread, z, rfl, hd⟩ := h
  obtain ⟨hz, hbody⟩ : Text.allBlank z = true ∧ body = d.body := by
    split at hd
    · next hz => exact ⟨hz, congrArg DocLine.body (Option.some.inj hd)⟩
    · cases hd
  obtain ⟨x, hx, hr₁⟩ := Text.exists_eq_append_trimStart r₁
  obtain ⟨y, hy, hr₂⟩ := Text.exists_eq_append_trimStart r₂
  rw [h₃] at hr₂
  rw [h₂, hr₂] at hr₁
  rw [h₁, hr₁] at hline
  have hr₃ : '\n' ∉ r₃ := by
    intro hmem
    rw [hline] at hbreak
    simp [hmem] at hbreak
  obtain ⟨hdenotes, rfl⟩ := denotes_of_readBody? hread hr₃
  subst hbody
  exact ⟨hindent, ⟨_, hdenotes⟩, x, y, z, hx, hy, List.all_eq_true.1 hz, hline⟩

theorem DocLine.Spells.read?_eq {line : Text} {d : DocLine} (h : d.Spells line) :
    read? line = some d := by
  obtain ⟨hindent, ⟨ps, hbody⟩, x, y, z, hx, hy, hz, rfl⟩ := h
  have hdoc (t : Text) :
      Text.after? "#[doc".toList (Text.trimStart (d.indent ++ '#' :: ("[doc".toList ++ t))) =
        some t := by
    rw [Text.trimStart_append_cons hindent (by decide)]
    rfl
  have hequals (t : Text) : Text.after? ['='] (Text.trimStart (x ++ '=' :: t)) = some t := by
    rw [Text.trimStart_append_cons hx (by decide)]
    rfl
  have hquote (t : Text) : Text.after? ['"'] (Text.trimStart (y ++ '"' :: t)) = some t := by
    rw [Text.trimStart_append_cons hy (by decide)]
    rfl
  have hbracket : Text.after? [']'] (']' :: z) = some z := Text.after?_append [']'] z
  have hread := hbody.readBody?_append (']' :: z)
  have hz : Text.allBlank z = true := List.all_eq_true.2 hz
  have hstart (t : Text) : "#[doc".toList ++ t = '#' :: ("[doc".toList ++ t) := rfl
  rw [read?, List.takeWhile_append_of_pos hindent, hstart, hdoc]
  simp only [Option.bind_eq_bind, Option.bind_some, hequals, hquote, hread, hbracket, hz, if_true]
  exact congrArg (fun indent => some (DocLine.mk indent d.body)) (List.append_nil d.indent)

/-- **A line is read as a doc attribute exactly if it is spelled as one.** -/
theorem DocLine.read?_eq_some_iff {line : Text} (hbreak : '\n' ∉ line) {d : DocLine} :
    read? line = some d ↔ d.Spells line :=
  ⟨spells_of_read? hbreak, Spells.read?_eq⟩

/-! ## Decoding a body and encoding it again -/

theorem denotes_encodeBody (t : Text) : Denotes (encodeBody t) (t.map .char) := by
  induction t with
  | nil => exact .nil
  | cons c t ih =>
    by_cases hc : c = '\\' ∨ c = '"'
    · rw [encodeBody_cons_of_escaped hc]
      rcases hc with rfl | rfl
      · exact .escape (by decide) ih
      · exact .escape (by decide) ih
    · obtain ⟨hslash, hquote⟩ := not_or.1 hc
      rw [encodeBody_cons_of_plain hc]
      exact .char hslash hquote ih

/-- A piece, once it is text: the backslash of an escape that was kept is a character. -/
def Piece.spelledOut (p : Piece) : List Piece := p.text.map .char

theorem flatMap_spelledOut_eq_self_iff :
    ps.flatMap Piece.spelledOut = ps ↔ ∀ c, Piece.kept c ∉ ps := by
  induction ps with
  | nil => simp
  | cons p ps ih =>
    rw [List.flatMap_cons]
    cases p with
    | char c =>
      have hrest : Piece.spelledOut (.char c) ++ ps.flatMap Piece.spelledOut = .char c :: ps ↔
          ps.flatMap Piece.spelledOut = ps := List.cons_inj_right _
      rw [hrest, ih]
      simp
    | kept c =>
      -- the backslash is a character now
      have hne : Piece.spelledOut (.kept c) ++ ps.flatMap Piece.spelledOut ≠ .kept c :: ps := by
        intro h
        cases (List.cons.inj h).1
      exact iff_of_false hne fun h => h c List.mem_cons_self

/-- **Encoding a body again spells out the escapes that stand for no character.** Whatever a body
denotes, what comes out is a body, and each escape that was kept is two characters in it. So it
denotes the same exactly if there was no such escape. -/
theorem denotes_encodeBody_decodeBody (h : Denotes b ps) :
    Denotes (encodeBody (decodeBody b)) (ps.flatMap Piece.spelledOut) ∧
      (Denotes (encodeBody (decodeBody b)) ps ↔ ∀ c, Piece.kept c ∉ ps) := by
  have hdenotes : Denotes (encodeBody (decodeBody b)) (ps.flatMap Piece.spelledOut) := by
    have hdecode : (decodeBody b).map Piece.char = ps.flatMap Piece.spelledOut := by
      rw [decodeBody, h.pieces_eq, List.map_flatMap]
      rfl
    rw [← hdecode]
    exact denotes_encodeBody _
  refine ⟨hdenotes, fun hsame => ?_, fun hnone => ?_⟩
  · exact flatMap_spelledOut_eq_self_iff.1 (hdenotes.pieces_eq.symm.trans hsame.pieces_eq)
  · rwa [flatMap_spelledOut_eq_self_iff.2 hnone] at hdenotes

/-- Escapes for characters, some of which are written as themselves afterwards. -/
theorem denotes_encodeBody_decodeBody_quotes :
    let b := "\\\"a\\n\\\\n".toList
    let ps : List Piece := [.char '"', .char 'a', .char '\n', .char '\\', .char 'n']
    Denotes b ps ∧ encodeBody (decodeBody b) = "\\\"a\n\\\\n".toList ∧
      Denotes (encodeBody (decodeBody b)) ps := by
  intro b ps
  have hb : Denotes b ps := .escape (by decide) (.char (by decide) (by decide) (.escape (by decide)
    (.escape (by decide) (.char (by decide) (by decide) .nil))))
  exact ⟨hb, by decide, (denotes_encodeBody_decodeBody hb).2.2 (by simp [ps])⟩

/-- The start of a code point is an escape for no character, and is a backslash afterwards. -/
theorem not_denotes_encodeBody_decodeBody :
    let b := "\\u\x7be9\x7d".toList
    let ps : List Piece := [.kept 'u', .char '\x7b', .char 'e', .char '9', .char '\x7d']
    Denotes b ps ∧ encodeBody (decodeBody b) = "\\\\u\x7be9\x7d".toList ∧
      ¬ Denotes (encodeBody (decodeBody b)) ps := by
  intro b ps
  have hu : ∀ d, ('u', d) ∉ escapes := fun d hd => by simp [escapes] at hd
  have hb : Denotes b ps := .kept hu (by decide) (.char (by decide) (by decide) (.char (by decide)
    (by decide) (.char (by decide) (by decide) (.char (by decide) (by decide) .nil))))
  exact ⟨hb, by decide, fun h => absurd h.pieces_eq (by decide)⟩

end DoxygenMarkdown.Bindings

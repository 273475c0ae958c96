import DoxygenMarkdown.Bindings.Item
import DoxygenMarkdown.Bindings.DocLine
import DoxygenMarkdown.Proofs.Text.Blank

/-!
# Doc attributes are read back

A text that is written into a doc attribute is read back as the same text, whatever its quotes and
backslashes (`read?_write`, `decodeBody_encodeBody`). Two facts carry this:

* the written body has no quote that is not part of an escape, so reading ends at the quote that
  was written to close it (`readBody?_encodeBody`);
* each of its pieces stands for a character of the text (`pieces_encodeBody`).

In the other direction, a line that is read as a doc attribute is indented by blanks only
(`blank_of_read?`) and is an attribute to whoever looks for the item below it
(`isAttribute_of_read?`).
-/

namespace DoxygenMarkdown.Bindings

/-! ## The body -/

theorem encodeBody_cons_of_escaped {c : Char} (h : c = '\\' ∨ c = '"') (t : Text) :
    encodeBody (c :: t) = '\\' :: c :: encodeBody t := by
  rw [encodeBody, List.flatMap_cons, if_pos h]
  rfl

theorem encodeBody_cons_of_plain {c : Char} (h : ¬ (c = '\\' ∨ c = '"')) (t : Text) :
    encodeBody (c :: t) = c :: encodeBody t := by
  rw [encodeBody, List.flatMap_cons, if_neg h]
  rfl

theorem pieces_cons {c : Char} (h : c ≠ '\\') (t : Text) : pieces (c :: t) = .char c :: pieces t :=
  pieces.eq_4 c t (fun hc => absurd hc h) fun _ _ hc => absurd hc h

/-- A body that was written has one piece for each character of its text. -/
theorem pieces_encodeBody (t : Text) : pieces (encodeBody t) = t.map .char := by
  induction t with
  | nil => rfl
  | cons c t ih =>
    by_cases hc : c = '\\' ∨ c = '"'
    · rw [encodeBody_cons_of_escaped hc, pieces, ih]
      rcases hc with rfl | rfl <;> rfl
    · rw [encodeBody_cons_of_plain hc, pieces_cons fun h => hc (.inl h), ih]
      rfl

/-- **Bodies are read back.** A text survives being written into a literal. -/
theorem decodeBody_encodeBody (t : Text) : decodeBody (encodeBody t) = t := by
  rw [decodeBody, pieces_encodeBody, List.flatMap_map]
  exact List.flatMap_singleton' t

theorem readBody?_cons {c : Char} (hslash : c ≠ '\\') (hquote : c ≠ '"') (t : Text) :
    readBody? (c :: t) = (readBody? t).map fun p => (c :: p.1, p.2) := by
  rw [readBody?.eq_4 c t (fun hc => absurd hc hslash) fun _ _ hc => absurd hc hslash,
    if_neg hquote]

/-- The quote that closes a written body is the first one that is not escaped. -/
theorem readBody?_encodeBody (t rest : Text) :
    readBody? (encodeBody t ++ '"' :: rest) = some (encodeBody t, rest) := by
  induction t with
  | nil => rfl
  | cons c t ih =>
    by_cases hc : c = '\\' ∨ c = '"'
    · rw [encodeBody_cons_of_escaped hc, List.cons_append, List.cons_append, readBody?, ih]
      rfl
    · obtain ⟨hslash, hquote⟩ := not_or.1 hc
      rw [encodeBody_cons_of_plain hc, List.cons_append, readBody?_cons hslash hquote, ih]
      rfl

/-- Writing a body adds nothing but backslashes. -/
theorem mem_of_mem_encodeBody {c : Char} (hc : c ≠ '\\') {t : Text} (h : c ∈ encodeBody t) :
    c ∈ t := by
  induction t with
  | nil => cases h
  | cons d t ih =>
    by_cases hd : d = '\\' ∨ d = '"'
    · rw [encodeBody_cons_of_escaped hd] at h
      rcases List.mem_cons.1 h with rfl | h
      · exact absurd rfl hc
      · rcases List.mem_cons.1 h with rfl | h
        · exact List.mem_cons_self
        · exact List.mem_cons_of_mem _ (ih h)
    · rw [encodeBody_cons_of_plain hd] at h
      rcases List.mem_cons.1 h with rfl | h
      · exact List.mem_cons_self
      · exact List.mem_cons_of_mem _ (ih h)

namespace DocLine

/-! ## Writing a line and reading it -/

/-- **Doc attributes are read back.** A line that was written is read as a doc attribute with the
indentation and the body that were written. -/
theorem read?_write {indent : Text} (h : ∀ c ∈ indent, isBlank c = true) (t : Text) :
    read? (write indent t) = some ⟨indent, encodeBody t⟩ := by
  have hwrite : write indent t =
      indent ++ ("#[doc".toList ++ " = \"".toList ++ encodeBody t ++ "\"]".toList) := by
    simp [write]
  have hindent : (write indent t).takeWhile isBlank = indent := by
    rw [hwrite, List.takeWhile_append_of_pos h]
    exact List.append_nil indent
  have hstart : Text.trimStart (write indent t) =
      "#[doc".toList ++ (" = \"".toList ++ (encodeBody t ++ "\"]".toList)) := by
    rw [hwrite, Text.trimStart, List.dropWhile_append_of_pos h, List.append_assoc,
      List.append_assoc]
    rfl
  have hdoc : Text.after? "#[doc".toList (Text.trimStart (write indent t)) =
      some (" = \"".toList ++ (encodeBody t ++ "\"]".toList)) :=
    Text.after?_eq_some_iff.2 hstart
  have hbody : readBody? (encodeBody t ++ "\"]".toList) = some (encodeBody t, [']']) :=
    readBody?_encodeBody t [']']
  rw [read?, hdoc, hindent]
  -- up to the quote that opens the body, the blanks and the equals sign are read as written
  change ((readBody? (encodeBody t ++ "\"]".toList)).bind _) = _
  rw [hbody]
  rfl

/-- What a doc attribute begins with. -/
theorem trimStart_of_read? {line : Text} {d : DocLine} (h : read? line = some d) :
    ∃ rest, line.trimStart = "#[doc".toList ++ rest := by
  rcases hdoc : Text.after? "#[doc".toList line.trimStart with _ | rest
  · rw [read?, hdoc] at h
    cases h
  · exact ⟨rest, Text.after?_eq_some_iff.1 hdoc⟩

theorem indent_of_read? {line : Text} {d : DocLine} (h : read? line = some d) :
    d.indent = line.takeWhile isBlank := by
  simp only [read?, Option.bind_eq_bind, Option.bind_eq_some_iff] at h
  obtain ⟨_, -, _, -, _, -, _, -, _, -, hd⟩ := h
  split at hd
  · cases hd
    rfl
  · cases hd

/-- A doc attribute is indented by blanks only. -/
theorem blank_of_read? {line : Text} {d : DocLine} (h : read? line = some d) :
    ∀ c ∈ d.indent, isBlank c = true := by
  rw [indent_of_read? h]
  exact List.all_eq_true.1 List.all_takeWhile

/-- A doc attribute is an attribute. -/
theorem isAttribute_of_read? {line : Text} {d : DocLine} (h : read? line = some d) :
    isAttribute line = true := by
  obtain ⟨rest, hrest⟩ := trimStart_of_read? h
  rw [isAttribute, hrest]
  rfl

/-- What is written on one line stays on one line. -/
theorem break_notMem_write {indent t : Text} (hi : '\n' ∉ indent) (ht : '\n' ∉ t) :
    '\n' ∉ write indent t := by
  intro h
  simp only [write, List.mem_append] at h
  rcases h with ((h | h) | h) | h
  · exact hi h
  · exact absurd h (by decide)
  · exact ht (mem_of_mem_encodeBody (by decide) h)
  · exact absurd h (by decide)

end DocLine

end DoxygenMarkdown.Bindings

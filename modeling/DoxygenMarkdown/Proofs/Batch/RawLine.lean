import DoxygenMarkdown.Batch.File
import DoxygenMarkdown.Proofs.Text.Lines
import DoxygenMarkdown.Proofs.Text.Utf8

/-!
# The lines of a file as bytes

A file falls into lines in two ways: as bytes, at its line feeds and carriage returns (`rawLines`),
and as a text, at its line feeds after all line ends were read as such. Both ways find the same
lines, and each line of the text is what the bytes of that line say (`lines_textOf`).

Lines that are written are found again, each ended by a line feed but the last
(`writtenLines_cons`), and what is written above them does not matter, as long as it does not end
with a carriage return (`writtenLines_append`).
-/

namespace DoxygenMarkdown.Batch

/-! ## The lines of a file as bytes -/

/-- A line of a file: its bytes, without those that end it, and those. -/
structure RawLine where
  content : Bytes
  ending : Bytes
deriving DecidableEq, Repr

/-- What a line says. -/
def RawLine.text (l : RawLine) : Text := Utf8.decode l.content

/-- Put a byte in front of the first of some lines. -/
def consByte (b : UInt8) : List RawLine → List RawLine
  | [] => [⟨[b], []⟩]
  | l :: ls => ⟨b :: l.content, l.ending⟩ :: ls

/-- The lines of a file. A line feed ends a line, and so does a carriage return, with a line feed
behind it or without. -/
def rawLines : Bytes → List RawLine
  | [] => [⟨[], []⟩]
  | 0x0D :: 0x0A :: bytes => ⟨[], [0x0D, 0x0A]⟩ :: rawLines bytes
  | b :: bytes =>
    if b = 0x0A ∨ b = 0x0D then ⟨[], [b]⟩ :: rawLines bytes else consByte b (rawLines bytes)

/-- Bytes that end no line. -/
def IsContent (bytes : Bytes) : Prop := ∀ b ∈ bytes, b ≠ 0x0A ∧ b ≠ 0x0D

/-- Bytes that end a line in front of others. -/
def EndsLine (ending rest : Bytes) : Prop :=
  ending = [0x0A] ∨ ending = [0x0D, 0x0A] ∨ ending = [0x0D] ∧ rest.head? ≠ some 0x0A

/-- Bytes that fall into lines, all of which but the last one are ended. All bytes do
(`isCut`). -/
inductive IsCut : Bytes → Prop
  | last {content : Bytes} (h : IsContent content) : IsCut content
  | line {content ending rest : Bytes} (h : IsContent content) (hend : EndsLine ending rest)
    (hrest : IsCut rest) : IsCut (content ++ (ending ++ rest))

theorem isCut (bytes : Bytes) : IsCut bytes := by
  fun_induction rawLines bytes with
  | case1 => exact .last fun _ h => nomatch h
  | case2 bytes ih =>
    exact @IsCut.line [] [0x0D, 0x0A] bytes (fun _ h => nomatch h) (.inr (.inl rfl)) ih
  | case3 b bytes hb hbreak ih =>
    refine @IsCut.line [] [b] bytes (fun _ h => nomatch h) ?_ ih
    rcases hbreak with rfl | rfl
    · exact .inl rfl
    · refine .inr (.inr ⟨rfl, fun h => ?_⟩)
      rcases bytes with _ | ⟨c, bytes⟩
      · cases h
      · obtain rfl : c = 0x0A := Option.some.inj h
        exact hb bytes rfl rfl
  | case4 b bytes hb hbreak ih =>
    have hcons {content : Bytes} (h : IsContent content) : IsContent (b :: content) := by
      intro c hc
      rcases List.mem_cons.1 hc with rfl | hc
      · exact not_or.1 hbreak
      · exact h c hc
    cases ih with
    | last h => exact .last (hcons h)
    | line h hend hrest => exact .line (hcons h) hend hrest

theorem rawLines_cons {b : UInt8} (hb : b ≠ 0x0A ∧ b ≠ 0x0D) (bytes : Bytes) :
    rawLines (b :: bytes) = consByte b (rawLines bytes) := by
  rw [rawLines.eq_3 b bytes fun _ h => absurd h hb.2, if_neg (not_or.2 hb)]

theorem rawLines_append {content bytes : Bytes} {l : RawLine} {ls : List RawLine}
    (hcontent : IsContent content) (h : rawLines bytes = l :: ls) :
    rawLines (content ++ bytes) = ⟨content ++ l.content, l.ending⟩ :: ls := by
  induction content with
  | nil => exact h
  | cons b content ih =>
    rw [IsContent, List.forall_mem_cons] at hcontent
    rw [List.cons_append, rawLines_cons hcontent.1, ih hcontent.2]
    rfl

theorem rawLines_of_isContent {content : Bytes} (h : IsContent content) :
    rawLines content = [⟨content, []⟩] := by
  have hnil : rawLines [] = [⟨[], []⟩] := rfl
  simpa using rawLines_append h hnil

theorem rawLines_line {content ending rest : Bytes} (h : IsContent content)
    (hend : EndsLine ending rest) :
    rawLines (content ++ (ending ++ rest)) = ⟨content, ending⟩ :: rawLines rest := by
  have hbreak : rawLines (ending ++ rest) = ⟨[], ending⟩ :: rawLines rest := by
    rcases hend with rfl | rfl | ⟨rfl, hrest⟩
    · rfl
    · rfl
    · refine (rawLines.eq_3 0x0D rest fun u _ hu => hrest (by rw [hu]; rfl)).trans ?_
      rfl
  have happend := rawLines_append h hbreak
  rwa [List.append_nil] at happend

/-- The last line is not ended, and all others are. -/
theorem rawLines_eq_concat (bytes : Bytes) :
    ∃ ls l, rawLines bytes = ls ++ [l] ∧ l.ending = [] ∧
      ∀ m ∈ ls, m.ending = [0x0A] ∨ 0x0D ∈ m.ending := by
  induction isCut bytes with
  | @last content h => exact ⟨[], ⟨content, []⟩, rawLines_of_isContent h, rfl, fun _ h => nomatch h⟩
  | @line content ending rest h hend hrest ih =>
    obtain ⟨ls, l, hls, hl, hended⟩ := ih
    refine ⟨⟨content, ending⟩ :: ls, l, ?_, hl, List.forall_mem_cons.2 ⟨?_, hended⟩⟩
    · rw [rawLines_line h hend, hls]
      rfl
    · rcases hend with rfl | rfl | ⟨rfl, -⟩
      · exact .inl rfl
      · exact .inr List.mem_cons_self
      · exact .inr List.mem_cons_self

/-- A line feed ends a line wherever there is no carriage return in front of it. -/
theorem rawLines_append_lineFeed {bytes : Bytes} (h : bytes.getLast? ≠ some 0x0D) (rest : Bytes) :
    ∃ ls, rawLines (bytes ++ 0x0A :: rest) = ls ++ rawLines rest := by
  induction isCut bytes with
  | @last content hcontent =>
    exact ⟨[⟨content, [0x0A]⟩], @rawLines_line content [0x0A] rest hcontent (.inl rfl)⟩
  | @line content ending below hcontent hend hrest ih =>
    have hbelow : below.getLast? ≠ some 0x0D := fun hlast =>
      h (by rw [List.getLast?_append, List.getLast?_append, hlast]; rfl)
    have hend' : EndsLine ending (below ++ 0x0A :: rest) := by
      refine hend.imp id (Or.imp id fun ⟨hreturn, hhead⟩ => ⟨hreturn, ?_⟩)
      rcases below with _ | ⟨b, below⟩
      · -- the carriage return would be the last byte
        subst hreturn
        exact absurd (by simp) h
      · exact hhead
    obtain ⟨ms, hms⟩ := ih hbelow
    refine ⟨⟨content, ending⟩ :: ms, ?_⟩
    rw [List.append_assoc, List.append_assoc, rawLines_line hcontent hend', hms]
    rfl

/-! ## What the lines say -/

theorem break_notMem_decode {content : Bytes} (h : IsContent content) :
    '\n' ∉ Utf8.decode content ∧ '\r' ∉ Utf8.decode content :=
  ⟨fun hmem => (h _ (Utf8.mem_of_mem_decode (b := 0x0A) (by decide) (by decide) hmem)).1 rfl,
    fun hmem => (h _ (Utf8.mem_of_mem_decode (b := 0x0D) (by decide) (by decide) hmem)).2 rfl⟩

/-- The lines of a file say what the lines of its text are. -/
theorem lines_textOf (bytes : Bytes) :
    (textOf bytes).lines = (rawLines bytes).map RawLine.text := by
  induction isCut bytes with
  | @last content h =>
    obtain ⟨hbreak, hreturn⟩ := break_notMem_decode h
    rw [textOf, Text.unifyBreaks_of_notMem hreturn, Text.lines_of_notMem hbreak,
      rawLines_of_isContent h]
    rfl
  | @line content ending rest h hend hrest ih =>
    obtain ⟨hbreak, hreturn⟩ := break_notMem_decode h
    have htext : textOf (content ++ (ending ++ rest)) =
        Utf8.decode content ++ '\n' :: textOf rest := by
      have hfeed (xs : Bytes) : Utf8.decode (xs ++ 0x0A :: rest) =
          Utf8.decode xs ++ '\n' :: Utf8.decode rest :=
        Utf8.decode_append_ascii (b := 0x0A) (by decide) xs rest
      have hback (ys : Bytes) : Utf8.decode (content ++ 0x0D :: ys) =
          Utf8.decode content ++ '\r' :: Utf8.decode ys :=
        Utf8.decode_append_ascii (b := 0x0D) (by decide) content ys
      rcases hend with rfl | rfl | ⟨rfl, hhead⟩
      · rw [textOf]
        refine (congrArg Text.unifyBreaks (hfeed content)).trans ?_
        exact Text.unifyBreaks_append_of_notMem hreturn _
      · rw [textOf]
        refine (congrArg Text.unifyBreaks (hback (0x0A :: rest))).trans ?_
        rw [show Utf8.decode (0x0A :: rest) = '\n' :: Utf8.decode rest from hfeed []]
        exact Text.unifyBreaks_append_of_notMem hreturn _
      · rw [textOf]
        refine (congrArg Text.unifyBreaks (hback rest)).trans ?_
        have hnot : (Utf8.decode rest).head? ≠ some '\n' := fun hn =>
          hhead (Utf8.head?_of_head?_decode (b := 0x0A) (by decide) (by decide) hn)
        rw [Text.unifyBreaks_append_of_notMem hreturn, Text.unifyBreaks_cons fun _ => hnot]
        rfl
    rw [htext, Text.lines_append_break, Text.lines_of_notMem hbreak, ih, rawLines_line h hend]
    rfl

/-! ## Lines that are written -/

theorem isContent_encode {l : Text} (hbreak : '\n' ∉ l) (hreturn : '\r' ∉ l) :
    IsContent (Utf8.encode l) := by
  intro b hb
  constructor
  · rintro rfl
    exact hbreak (Utf8.mem_of_mem_encode (b := 0x0A) (by decide) hb)
  · rintro rfl
    exact hreturn (Utf8.mem_of_mem_encode (b := 0x0D) (by decide) hb)

theorem encode_append_break (x y : Text) :
    Utf8.encode (x ++ '\n' :: y) = Utf8.encode x ++ 0x0A :: Utf8.encode y :=
  Utf8.encode_append x ('\n' :: y)

/-- The lines of a file that lines are written to. No lines at all leave it empty. -/
def writtenLines : List Text → List RawLine
  | [] => []
  | ls => rawLines (Utf8.encode (Text.unlines ls))

theorem writtenLines_of_ne_nil {ls : List Text} (h : ls ≠ []) :
    writtenLines ls = rawLines (Utf8.encode (Text.unlines ls)) :=
  writtenLines.eq_2 ls h

/-- A line that is written is a line of the file, ended by a line feed unless it is the last. -/
theorem writtenLines_cons {l : Text} (hl : '\n' ∉ l ∧ '\r' ∉ l) (ls : List Text) :
    writtenLines (l :: ls) =
      ⟨Utf8.encode l, if ls = [] then [] else [0x0A]⟩ :: writtenLines ls := by
  have hcontent := isContent_encode hl.1 hl.2
  rw [writtenLines_of_ne_nil (List.cons_ne_nil l ls)]
  by_cases hls : ls = []
  · rw [hls, Text.unlines_singleton, rawLines_of_isContent hcontent, if_pos rfl]
    rfl
  · rw [Text.unlines_cons hls, encode_append_break, if_neg hls, writtenLines_of_ne_nil hls]
    exact @rawLines_line _ [0x0A] _ hcontent (.inl rfl)

/-- Lines that are written above others leave those as they are, if they do not end with a carriage
return. -/
theorem writtenLines_append {ls : List Text}
    (h : (Utf8.encode (Text.unlines ls)).getLast? ≠ some 0x0D) (ms : List Text) :
    ∃ above, writtenLines (ls ++ ms) = above ++ writtenLines ms := by
  by_cases hls : ls = []
  · exact ⟨[], by rw [hls]; rfl⟩
  by_cases hms : ms = []
  · exact ⟨writtenLines ls, by rw [hms, List.append_nil]; exact (List.append_nil _).symm⟩
  · obtain ⟨above, habove⟩ := rawLines_append_lineFeed h (Utf8.encode (Text.unlines ms))
    refine ⟨above, ?_⟩
    rw [writtenLines_of_ne_nil (List.append_ne_nil_of_left_ne_nil hls ms),
      Text.unlines_append hls hms, encode_append_break, habove, writtenLines_of_ne_nil hms]

end DoxygenMarkdown.Batch

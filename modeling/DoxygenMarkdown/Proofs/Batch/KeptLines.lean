import DoxygenMarkdown.Proofs.Batch.Effect
import DoxygenMarkdown.Proofs.Batch.RawLine
import Mathlib.Data.List.Forall2

/-!
# What a conversion keeps of a file

A file is cut into segments, and each segment has its own lines in the file before the conversion
and in the file after it (`Change`). Where no run was converted, line stands for line, in the same
order (`Change.IsSound`), and each is the line that it was, up to two things (`IsKept`):

* bytes that are no UTF-8 become replacement characters, in every line of a file that is written;
* a line feed is gone if nothing is left below it.

The main result, `convertPath_keeps_lines`, goes through the segments from the last one to the
first. What is written below a line does not change it, except for that line feed
(`writtenLines_cons`), and what a converted run leaves behind never ends with a carriage return, so
it keeps apart from the next line (`writtenLines_append`).
-/

namespace DoxygenMarkdown.Batch

open Bindings (Segment convertSegments)

/-! ## Lines that are kept -/

/-- A line of a file, before and after the file was written. -/
structure IsKept (old new : RawLine) : Prop where
  /-- It says what it said. -/
  content : new.content = Utf8.encode old.text
  /-- If it is UTF-8, it is kept byte for byte. -/
  encoded : ∀ t, old.content = Utf8.encode t → new.content = old.content
  ending : 0x0D ∉ old.ending → new.ending = old.ending ∨ new.ending = []

theorem isKept_of_ending {old : RawLine} {ending : Bytes}
    (h : 0x0D ∉ old.ending → ending = old.ending ∨ ending = []) :
    IsKept old ⟨Utf8.encode old.text, ending⟩ where
  content := rfl
  encoded t ht := by rw [RawLine.text, ht, Utf8.decode_encode]
  ending := h

/-- Lines of which all but the last one are ended. -/
def AreEnded (ls : List RawLine) : Prop := ∀ l ∈ ls.dropLast, l.ending = [0x0A] ∨ 0x0D ∈ l.ending

theorem areEnded_rawLines (bytes : Bytes) : AreEnded (rawLines bytes) := by
  obtain ⟨ls, l, hls, -, hended⟩ := rawLines_eq_concat bytes
  rw [AreEnded, hls, List.dropLast_concat]
  exact hended

theorem AreEnded.head {l : RawLine} {ls : List RawLine} (h : AreEnded (l :: ls)) (hne : ls ≠ []) :
    l.ending = [0x0A] ∨ 0x0D ∈ l.ending :=
  h l (by rw [List.dropLast_cons_of_ne_nil hne]; exact List.mem_cons_self)

theorem AreEnded.tail {l : RawLine} {ls : List RawLine} (h : AreEnded (l :: ls)) : AreEnded ls := by
  by_cases hne : ls = []
  · rw [hne]
    exact fun _ h => nomatch h
  · intro m hm
    exact h m (by rw [List.dropLast_cons_of_ne_nil hne]; exact List.mem_cons_of_mem _ hm)

theorem AreEnded.of_append {ls ms : List RawLine} (h : AreEnded (ls ++ ms)) : AreEnded ms := by
  induction ls with
  | nil => exact h
  | cons l ls ih => exact ih h.tail

/-- What the lines of a file say holds no line ends. -/
theorem break_notMem_text {bytes : Bytes} {l : RawLine} (h : l ∈ rawLines bytes) :
    '\n' ∉ l.text ∧ '\r' ∉ l.text := by
  have hl : l.text ∈ (textOf bytes).lines := by
    rw [lines_textOf]
    exact List.mem_map_of_mem h
  exact ⟨Text.break_notMem_of_mem_lines hl,
    fun hmem => Text.return_notMem_unifyBreaks _ (Text.mem_of_mem_lines hl hmem)⟩

/-- Lines that are written as what they say, above others, are kept. -/
theorem exists_writtenLines_kept {ls below : List RawLine} {rest : List Text}
    (hbreak : ∀ l ∈ ls, '\n' ∉ l.text ∧ '\r' ∉ l.text) (hended : AreEnded (ls ++ below))
    (hrest : rest ≠ [] → below ≠ []) :
    ∃ after, writtenLines (ls.map RawLine.text ++ rest) = after ++ writtenLines rest ∧
      List.Forall₂ IsKept ls after := by
  induction ls with
  | nil => exact ⟨[], rfl, .nil⟩
  | cons l ls ih =>
    rw [List.forall_mem_cons] at hbreak
    obtain ⟨after, hafter, hkept⟩ := ih hbreak.2 hended.tail
    have hl : IsKept l
        ⟨Utf8.encode l.text, if ls.map RawLine.text ++ rest = [] then [] else [0x0A]⟩ := by
      refine isKept_of_ending fun hreturn => ?_
      by_cases hlast : ls.map RawLine.text ++ rest = []
      · exact .inr (if_pos hlast)
      · have hne : ls ++ below ≠ [] := by
          intro h
          obtain ⟨rfl, hbelow⟩ := List.append_eq_nil_iff.1 h
          exact hrest hlast hbelow
        exact .inl ((if_neg hlast).trans ((hended.head hne).resolve_right hreturn).symm)
    refine ⟨_ :: after, ?_, .cons hl hkept⟩
    rw [List.map_cons, List.cons_append, writtenLines_cons hbreak.1, hafter]
    rfl

/-! ## The file, segment by segment -/

/-- A segment with its lines in the file, before and after the file was written. -/
structure Change where
  segment : Segment
  before : List RawLine
  after : List RawLine

/-- The lines of a segment say what it says. Without a conversion they are kept, in order. -/
structure Change.IsSound (c : Change) : Prop where
  source : c.before.map RawLine.text = c.segment.source
  kept : ¬ c.segment.IsConverted → List.Forall₂ IsKept c.before c.after

/-- The segments of a file, as they make up its lines before and after it was written. -/
structure AreChanges (changes : List Change) (old new : Bytes) : Prop where
  segments : changes.map Change.segment = Bindings.segments (textOf old)
  before : changes.flatMap Change.before = rawLines old
  after : changes.flatMap Change.after = rawLines new
  sound : ∀ c ∈ changes, c.IsSound
  /-- So nothing but the last line has lost a line feed. -/
  ended : ∀ l ∈ (rawLines new).dropLast, l.ending ≠ []

variable {trimLines : Bool}

/-- A segment is written in front of others. -/
theorem exists_after {s : Segment} {ls below : List RawLine} {rest : List Text}
    (hsource_eq : ls.map RawLine.text = s.source)
    (hbreak : ∀ l ∈ ls, '\n' ∉ l.text ∧ '\r' ∉ l.text) (hended : AreEnded (ls ++ below))
    (hrest : rest ≠ [] → below ≠ []) :
    ∃ after, writtenLines ((s.convert trimLines).lines ++ rest) = after ++ writtenLines rest ∧
      Change.IsSound ⟨s, ls, after⟩ := by
  by_cases hs : s.IsConverted
  · -- the last byte of what is written for the run is a bracket
    have hlast : (Utf8.encode (Text.unlines (s.convert trimLines).lines)).getLast? ≠ some 0x0D := by
      rcases List.eq_nil_or_concat' (s.convert trimLines).lines with hnil | ⟨ks, k, hks⟩
      · rw [hnil]
        nofun
      · obtain ⟨r, t, -, -, rfl⟩ :=
          Segment.exists_write_of_isConverted hs (hks ▸ List.mem_concat_self)
        obtain ⟨u, hu⟩ := Bindings.DocLine.exists_concat_write r.indent t
        have hbracket (u : Text) : (Utf8.encode (u ++ [']'])).getLast? = some 0x5D := by
          rw [Utf8.encode_append]
          exact List.getLast?_concat
        rw [hks, hu]
        by_cases hne : ks = []
        · rw [hne, List.nil_append, Text.unlines_singleton, hbracket]
          decide
        · rw [Text.unlines_append hne (List.cons_ne_nil _ _), Text.unlines_singleton,
            ← List.cons_append, ← List.append_assoc, hbracket]
          decide
    obtain ⟨after, hafter⟩ := writtenLines_append hlast rest
    exact ⟨after, hafter, hsource_eq, fun h => absurd hs h⟩
  · obtain ⟨after, hafter, hkept⟩ := exists_writtenLines_kept hbreak hended hrest
    rw [Segment.lines_convert_of_not_isConverted hs, ← hsource_eq]
    exact ⟨after, hafter, hsource_eq, fun _ => hkept⟩

/-- Segments are written one below the other. -/
theorem exists_changes {ss : List Segment} (hsource : ∀ s ∈ ss, s.source ≠ []) {ls : List RawLine}
    (hsource_eq : ls.map RawLine.text = Segment.linesOf ss)
    (hbreak : ∀ l ∈ ls, '\n' ∉ l.text ∧ '\r' ∉ l.text) (hended : AreEnded ls) :
    ∃ changes : List Change, changes.map Change.segment = ss ∧
      changes.flatMap Change.before = ls ∧
      changes.flatMap Change.after = writtenLines (convertSegments trimLines ss).lines ∧
      ∀ c ∈ changes, c.IsSound := by
  induction ss generalizing ls with
  | nil =>
    obtain rfl := List.map_eq_nil_iff.1 hsource_eq
    exact ⟨[], rfl, rfl, rfl, fun _ h => nomatch h⟩
  | cons s ss ih =>
    rw [List.forall_mem_cons] at hsource
    rw [Segment.linesOf_cons] at hsource_eq
    obtain ⟨above, below, rfl, habove, hbelow⟩ := List.map_eq_append_iff.1 hsource_eq
    rw [List.forall_mem_append] at hbreak
    obtain ⟨changes, hsegment, hbefore, hafter, hsound⟩ :=
      ih hsource.2 hbelow hbreak.2 hended.of_append
    have hrest : (convertSegments trimLines ss).lines ≠ [] → below ≠ [] := by
      rintro hne rfl
      rcases ss with _ | ⟨s', ss⟩
      · exact hne rfl
      · rw [List.map_nil, Segment.linesOf_cons] at hbelow
        exact hsource.2 s' List.mem_cons_self (List.append_eq_nil_iff.1 hbelow.symm).1
    obtain ⟨after, hwritten, hs⟩ := exists_after habove hbreak.1 hended hrest
    refine ⟨⟨s, above, after⟩ :: changes, ?_, ?_, ?_, List.forall_mem_cons.2 ⟨hs, hsound⟩⟩
    · rw [List.map_cons, hsegment]
    · rw [List.flatMap_cons, hbefore]
    · rw [List.flatMap_cons, hafter, Bindings.convertSegments_cons, hwritten]

theorem ending_ne_nil_of_mem_dropLast {bytes : Bytes} {l : RawLine}
    (h : l ∈ (rawLines bytes).dropLast) : l.ending ≠ [] := by
  intro hl
  rcases areEnded_rawLines bytes l h with hfeed | hreturn
  · rw [hl] at hfeed
    cases hfeed
  · rw [hl] at hreturn
    cases hreturn

/-- Where nothing is left of a file, all its runs were converted. The one line of the empty file is
then taken as what the first of them left behind. -/
theorem exists_changes_nothing {changes : List Change} (hne : changes ≠ [])
    (hsource : ∀ c ∈ changes, c.segment.source ≠ []) (hsound : ∀ c ∈ changes, c.IsSound)
    (hafter : changes.flatMap Change.after = []) :
    ∃ changes' : List Change, changes'.map Change.segment = changes.map Change.segment ∧
      changes'.flatMap Change.before = changes.flatMap Change.before ∧
      changes'.flatMap Change.after = rawLines [] ∧ ∀ c ∈ changes', c.IsSound := by
  obtain ⟨c, cs, rfl⟩ := List.exists_cons_of_ne_nil hne
  rw [List.forall_mem_cons] at hsource hsound
  rw [List.flatMap_cons, List.append_eq_nil_iff] at hafter
  have hconverted : c.segment.IsConverted := by
    by_contra hs
    have hkept := hsound.1.kept hs
    rw [hafter.1, List.forall₂_nil_right_iff] at hkept
    have hempty := hsound.1.source
    rw [hkept] at hempty
    exact hsource.1 hempty.symm
  refine ⟨{ c with after := rawLines [] } :: cs, rfl, rfl, ?_, ?_⟩
  · rw [List.flatMap_cons, hafter.2, List.append_nil]
  · exact List.forall_mem_cons.2 ⟨⟨hsound.1.source, fun hs => absurd hconverted hs⟩, hsound.2⟩

/-- The segments of a file whose text is converted and written back. -/
theorem exists_areChanges (trimLines : Bool) (bytes : Bytes) :
    ∃ changes, AreChanges changes bytes
      (Utf8.encode (Bindings.convert trimLines (textOf bytes)).text) := by
  let ss := Bindings.segments (textOf bytes)
  have hsource : ∀ s ∈ ss, s.source ≠ [] := (Segment.isCut_ofLines 1 _).source_ne_nil
  have hlines : (rawLines bytes).map RawLine.text = Segment.linesOf ss := by
    rw [← lines_textOf]
    exact (Segment.linesOf_ofLines 1 _).symm
  obtain ⟨changes, hsegment, hbefore, hafter, hsound⟩ :=
    @exists_changes trimLines ss hsource _ hlines (fun _ => break_notMem_text)
      (areEnded_rawLines bytes)
  have htext : (Bindings.convert trimLines (textOf bytes)).text =
      Text.unlines (convertSegments trimLines ss).lines := rfl
  rw [htext]
  by_cases hnil : (convertSegments trimLines ss).lines = []
  · rw [hnil] at hafter ⊢
    have hne : changes ≠ [] := by
      rintro rfl
      obtain ⟨ls, l, hls, -⟩ := rawLines_eq_concat bytes
      rw [hls] at hbefore
      exact List.concat_ne_nil l ls hbefore.symm
    obtain ⟨changes', hsegment', hbefore', hafter', hsound'⟩ := exists_changes_nothing hne
      (fun c hc => hsource _ (hsegment ▸ List.mem_map_of_mem hc)) hsound hafter
    exact ⟨changes', hsegment'.trans hsegment, hbefore'.trans hbefore, hafter', hsound',
      fun _ => ending_ne_nil_of_mem_dropLast⟩
  · rw [writtenLines_of_ne_nil hnil] at hafter
    exact ⟨changes, hsegment, hbefore, hafter, hsound, fun _ => ending_ne_nil_of_mem_dropLast⟩

/-! ## The file after the call -/

/-- A backup may be made anywhere, and does not change where paths lead. -/
theorem makeBackup_cases (tree : FileTree) (path : Text) (backup : Bool) :
    (∃ e, makeBackup tree path backup = (tree, .error e)) ∨
      ∃ made, makeBackup tree path backup = (made, .ok ()) ∧ FileTree.SameFolders tree made := by
  rw [makeBackup]
  split
  · change (∃ e, tree.attempt (tree.copy path _) = _) ∨
      ∃ made, tree.attempt (tree.copy path _) = _ ∧ _
    rcases hcopy : tree.copy path (backupPath path) with e | made
    · exact .inl ⟨e, rfl⟩
    · refine .inr ⟨made, rfl, ?_⟩
      rw [FileTree.copy] at hcopy
      cases hread : tree.read path with
      | error e =>
        rw [hread] at hcopy
        cases hcopy
      | ok bytes =>
        rw [hread] at hcopy
        obtain ⟨m, -, -, rfl⟩ := FileTree.write_eq_ok_iff.1 hcopy
        exact FileTree.sameFolders_put tree m bytes
  · exact .inr ⟨tree, rfl, FileTree.SameFolders.refl tree⟩

/-- What a file holds after it was converted: what it held, or its converted text. -/
theorem fileAt?_convertPath {mode : Mode} {tree : FileTree} {path : Text} {l : Location}
    {bytes : Bytes} (h : tree.find path = .ok (l, bytes)) :
    (convertPath mode tree path).tree.fileAt? l = some bytes ∨
      (convertPath mode tree path).tree.fileAt? l =
        some (Utf8.encode (convertedText mode.trimLines bytes)) := by
  obtain ⟨hlocate, hfolder, hfile⟩ := FileTree.find_eq_ok_iff.1 h
  have hread : Disk.read tree path = .ok bytes := FileTree.read_of_find h
  by_cases hidle : convertedText mode.trimLines bytes = textOf bytes ∨ mode.dryRun = true
  · rw [convertPath_of_idle hread hidle]
    exact .inl hfile
  obtain ⟨hne, hdry⟩ := not_or.1 hidle
  rw [convertPath_of_ne hread hne (Bool.eq_false_iff.2 hdry), writeBack]
  rcases makeBackup_cases tree path mode.backup with ⟨e, hmade⟩ | ⟨made, hmade, hsame⟩
  · rw [hmade]
    exact .inl hfile
  · have hwrite := FileTree.write_eq_ok_iff.2
      ⟨l, hsame.locate_eq_ok_iff.2 hlocate, (hsame.isFolderAt_eq l).trans hfolder,
        Eq.refl (made.put l (Utf8.encode (convertedText mode.trimLines bytes)))⟩
    rw [hmade]
    change (made.attempt (made.write path _)).1.fileAt? l = _ ∨
      (made.attempt (made.write path _)).1.fileAt? l = _
    rw [hwrite]
    exact .inr ((FileTree.fileAt?_put ..).trans (if_pos rfl))

/-- **A conversion keeps all lines that are not part of a converted run.** The file that a path
leads to either holds the same bytes after the call, or its segments make up its lines before and
after: where no run was converted, line by line, in order, with the same bytes in every line of
UTF-8, and with its line feed unless nothing is left below it. -/
theorem convertPath_keeps_lines (mode : Mode) {tree : FileTree} {path : Text} {l : Location}
    {bytes : Bytes} (h : tree.find path = .ok (l, bytes)) :
    ∃ bytes', (convertPath mode tree path).tree.fileAt? l = some bytes' ∧
      (bytes' = bytes ∨ ∃ changes, AreChanges changes bytes bytes') := by
  rcases fileAt?_convertPath h with hfile | hfile
  · exact ⟨bytes, hfile, .inl rfl⟩
  · exact ⟨_, hfile, .inr (exists_areChanges mode.trimLines bytes)⟩

/-- Carriage returns, a byte that is no UTF-8, and a run of which nothing is left. -/
def mixedFile : Bytes :=
  [0x61, 0x0D, 0x0A, 0xFF, 0x0A, 0x62, 0x0A] ++ Utf8.encode "#[doc = \"@def\"]".toList

/-- The file is written anew, and its third line is kept, in its place. -/
theorem convertPath_keeps_lines_mixed :
    let tree : FileTree := { files := [(["f".toList], mixedFile)] }
    let written : Bytes := [0x61, 0x0A, 0xEF, 0xBF, 0xBD, 0x0A, 0x62]
    tree.find "f".toList = .ok (["f".toList], mixedFile) ∧
      (convertPath {} tree "f".toList).tree.fileAt? ["f".toList] = some written ∧
      ∃ changes, AreChanges changes mixedFile written ∧
        ∃ c ∈ changes, ∃ old new, c.before = [old] ∧ c.after = [new] ∧
          old.text = ['b'] ∧ new.content = [0x62] := by
  intro tree written
  have hfind : tree.find "f".toList = .ok (["f".toList], mixedFile) := rfl
  obtain ⟨bytes', hfile, hkept⟩ := convertPath_keeps_lines {} hfind
  have hwritten : (convertPath {} tree "f".toList).tree.fileAt? ["f".toList] = some written := by
    decide
  obtain rfl := Option.some.inj (hfile.symm.trans hwritten)
  obtain ⟨changes, hchanges⟩ := hkept.resolve_left (by decide)
  refine ⟨hfind, hwritten, changes, hchanges, ?_⟩
  have hmem : Segment.other ['b'] ∈ changes.map Change.segment := by
    rw [hchanges.segments]
    decide
  obtain ⟨c, hc, hsegment⟩ := List.mem_map.1 hmem
  have hsound := hchanges.sound c hc
  -- a segment of one line has one line in the file, before and after
  have hsource : c.before.map RawLine.text = [['b']] := hsound.source.trans (hsegment ▸ rfl)
  obtain ⟨old, hbefore, hold⟩ := List.map_eq_singleton_iff.1 hsource
  have hother : ¬ c.segment.IsConverted := by
    rw [hsegment]
    rintro ⟨r, rendering, h, -⟩
    cases h
  have hkept := hsound.kept hother
  rw [hbefore, List.forall₂_cons_left_iff] at hkept
  obtain ⟨new, rest, hnew, hrest, hafter⟩ := hkept
  obtain rfl := List.forall₂_nil_left_iff.1 hrest
  refine ⟨c, hc, old, new, hbefore, hafter, hold, ?_⟩
  rw [hnew.content, hold]
  rfl

/-- Not every line outside of runs is kept byte for byte. The first one loses its carriage return,
the second one its byte, and the third one its line feed. -/
theorem convertPath_mixed :
    let tree : FileTree := { files := [(["f".toList], mixedFile)] }
    (Bindings.segments (textOf mixedFile)).take 3 =
        [.other "a".toList, .other ['\uFFFD'], .other "b".toList] ∧
      (rawLines mixedFile).take 3 =
        [⟨[0x61], [0x0D, 0x0A]⟩, ⟨[0xFF], [0x0A]⟩, ⟨[0x62], [0x0A]⟩] ∧
      ((convertPath {} tree "f".toList).tree.fileAt? ["f".toList]).map rawLines =
        some [⟨[0x61], [0x0A]⟩, ⟨[0xEF, 0xBF, 0xBD], [0x0A]⟩, ⟨[0x62], []⟩] := by
  refine ⟨?_, ?_, ?_⟩
  · decide
  · decide
  · decide

end DoxygenMarkdown.Batch

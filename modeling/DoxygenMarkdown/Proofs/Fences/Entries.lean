import DoxygenMarkdown.Proofs.Fences.Marks
import DoxygenMarkdown.Proofs.Fences.Pointers

/-!
# Blocks of code in entries, paragraphs and quotes

An outline may be written as an entry of a list, as a paragraph or in a block quote, and each of
them leaves its fences in pairs and its blocks behind marks.

* In an entry everything is indented, so a block that the entry ends with is closed by a fence with
  nothing but blanks before it (`hungLines`). That is what the suffix of an entry looks at, so it
  never goes to the line of a fence (`writes_addSuffix`).
* In a paragraph pointers are dropped. Which lines are taken for code does not matter here, because
  no line that opens or closes a block begins with a pointer (`run_dropPointers`).
* In a quote each line gets a mark.
-/

namespace DoxygenMarkdown

open Markdown

variable {t : Text} {l : Text} {ls : List Text}

/-! ## Entries -/

/-- The kinds of lines of a text that is indented: a block is closed by a fence with nothing but
blanks before it. -/
def hungLines : LineKinds :=
  { writtenPairedLines with closing := fun l => ∃ n, l = indentLine n fence }

theorem step_hungLines (n : Nat) {a b : Bool} {l : Text} (h : pairedLines.Step a l b) :
    hungLines.Step a (indentLine n l) b := by
  have hcount := (behind_indentLine n l).fenceCount_eq
  refine h.imp (fun h => ?_) ?_ (fun h => ?_) ?_
  · exact (congrArg (· % 2) hcount).trans h
  · rintro ⟨r, rfl, hr⟩
    exact ⟨_, r, .replicate n, rfl, hr⟩
  · exact hcount.trans h
  · exact fun h => ⟨n, congrArg (indentLine n) h⟩

theorem fencedText_hang (n : Nat) (h : FencedText pairedLines t) :
    FencedText hungLines (Text.hang n t) := by
  obtain ⟨l, ls, hl⟩ := Text.lines_eq_cons t
  rw [FencedText, hl] at h
  obtain ⟨b, hfirst, hrun⟩ := h.cons_inv
  rw [FencedText, Text.lines_hang n hl]
  exact .cons (step_hungLines 0 hfirst) (hrun.map fun _ _ _ => step_hungLines n)

theorem shows_hang (n : Nat) (t : Text) : Shows t.lines (Text.hang n t).lines := by
  obtain ⟨l, ls, hl⟩ := Text.lines_eq_cons t
  rw [Text.lines_hang n hl, hl]
  refine shows_of_forall₂ (.cons (.inr (behind_self l)) ?_)
  exact List.forall₂_map_right_iff.2 (List.forall₂_same.2 fun l _ => .inr (behind_indentLine n l))

theorem FencedText.isPaired_of_hung (h : FencedText hungLines t) : IsPaired t := by
  have hid : t.lines.map id = t.lines := List.map_id _
  rw [IsPaired, FencedText, ← hid]
  refine LineKinds.Run.map (k := hungLines) (fun a l b hl => hl.imp id id id ?_) h
  rintro ⟨n, rfl⟩
  exact ⟨_, .replicate n, rfl⟩

/-- Behind text, a suffix goes on with the last line. -/
theorem writes_append_suffix {suffix : Text} (hb : '\n' ∉ suffix) (hnone : '`' ∉ suffix)
    (h : FencedText hungLines t) (hlast : isFenceLine (t.lines.getLastD []) = false) :
    Writes t.lines (t ++ suffix) := by
  obtain ⟨ls, l, hls⟩ := Text.lines_eq_concat t
  have hlines : Text.lines (t ++ suffix) = ls ++ [l ++ suffix] :=
    Text.lines_append hls (Text.lines_of_notMem hb)
  rw [hls, List.getLastD_concat] at hlast
  rw [FencedText, hls] at h
  obtain ⟨b, hrun, hstep⟩ := h.concat_inv
  cases hstep with
  | text hl =>
    have hpairs : HoldsPairs (l ++ suffix) := by
      rw [HoldsPairs, fenceCount_append_of_notMem_right _ hnone]
      exact hl
    constructor
    · refine FencedText.isPaired_of_hung ?_
      rw [FencedText, hlines]
      exact hrun.concat (.text hpairs)
    · rw [hlines, hls]
      exact (shows_self ls).append (Becomes.shows_cons (.inl ⟨hl, hpairs⟩) [])
  | closing hl =>
    -- a block that ends here ends with a fence behind blanks
    obtain ⟨n, rfl⟩ := hl
    rw [isFenceLine_indentLine] at hlast
    exact absurd hlast (by decide)

/-- A suffix goes behind text, or on a line of its own. -/
theorem writes_addSuffix {suffix : Text} (hb : '\n' ∉ suffix) (hnone : '`' ∉ suffix)
    (h : FencedText hungLines t) : Writes t.lines (addSuffix t suffix) := by
  have hwrites : Writes t.lines t := ⟨h.isPaired_of_hung, shows_self _⟩
  rw [addSuffix]
  split
  · have hsuffix : Writes [] (' ' :: suffix) := by
      refine writes_of_notMem ?_ ?_
      · rw [List.mem_cons, not_or]
        exact ⟨by decide, hb⟩
      · exact congrArg (· % 2) (fenceCount_append_of_notMem_right [' '] hnone)
    have hbelow := hwrites.append_break hsuffix
    rw [List.append_nil] at hbelow
    rw [List.append_assoc]
    exact hbelow
  · next hno =>
    by_cases hs : suffix = []
    · rwa [hs, List.append_nil]
    · rw [List.isEmpty_eq_false_iff.2 hs] at hno
      exact writes_append_suffix hb hnone h (Bool.eq_false_iff.2 hno)

/-- A head goes before text. -/
theorem fencedText_entryText {head : Text} {content : Option Outline} (hb : '\n' ∉ head)
    (hhead : HoldsPairs head) (hc : ∀ o ∈ content, FencedText pairedLines o.top)
    (hbegin : head.isEmpty = false → ∀ o ∈ content, BeginsWith HoldsPairs o.top) :
    FencedText pairedLines (entryText head content) ∧
      Shows ((content.map (·.top.lines)).getD []) (entryText head content).lines := by
  have hheadText : FencedText pairedLines head ∧ Shows [] head.lines := by
    rw [FencedText, Text.lines_of_notMem hb, Shows, delimiters_cons_of_pairs hhead]
    exact ⟨.singleton (.text hhead), .nil⟩
  rcases content with _ | o
  · exact hheadText
  have ho := hc o rfl
  rw [entryText]
  simp only [Option.map_some, Option.getD_some]
  split
  · next hempty =>
    rw [List.isEmpty_iff.1 hempty]
    exact hheadText
  split
  · exact ⟨ho, shows_self _⟩
  · next hne =>
    have hbegin := hbegin (Bool.eq_false_iff.2 hne) o rfl
    have hlabel : IsLabel (head ++ " - ".toList) := by
      refine ⟨?_, ?_, head ++ " -".toList, ?_⟩
      · rw [List.mem_append, not_or]
        exact ⟨hb, by decide⟩
      · show fenceCount (head ++ " - ".toList) % 2 = 0
        rw [fenceCount_append_of_notMem_right _ (by decide)]
        exact hhead
      · rw [List.append_assoc]
        rfl
    refine ⟨ho.label pairedLines_countsFences hlabel hbegin,
      Writes.shows_append hlabel.break_notMem ?_⟩
    exact fun l hl => .inl ⟨hbegin l hl, hlabel.holdsPairs_append (hbegin l hl)⟩

/-- The lines of an entry: those of its text behind the star, and those of the list below it. -/
theorem lines_listEntry (head : Text) (content : Option Outline) (suffix : Text) :
    (listEntry head content suffix).lines =
      Text.lines ('*' :: ' ' :: addSuffix (Text.hang 2 (entryText head content)) suffix) ++
        (Outline.listLines 2 ((content.map (·.sub)).getD [])).flatMap Text.lines := by
  rw [listEntry, Text.lines_unlines_flatMap (List.cons_ne_nil _ _), List.flatMap_cons]

/-- An entry is written with its fences in pairs. -/
theorem writes_listEntry {head suffix : Text} {content : Option Outline} (hb : '\n' ∉ head)
    (hhead : HoldsPairs head) (hc : ∀ o ∈ content, o.All (FencedText pairedLines))
    (hbegin : head.isEmpty = false → ∀ o ∈ content, BeginsWith HoldsPairs o.top)
    (hsb : '\n' ∉ suffix) (hs : '`' ∉ suffix) :
    Writes (Outline.listTextLines content.toList) (listEntry head content suffix) := by
  obtain ⟨htext, hshows⟩ := fencedText_entryText hb hhead (fun o ho => (hc o ho).top) hbegin
  have hfirst : Writes ((content.map (·.top.lines)).getD [])
      ('*' :: ' ' :: addSuffix (Text.hang 2 (entryText head content)) suffix) :=
    ((writes_addSuffix hsb hs (fencedText_hang 2 htext)).of_shows
      (hshows.trans (shows_hang 2 _))).mark (.star .nil) (by decide)
  have hsub : ∀ p ∈ (content.map (·.sub)).getD [], p.All (FencedText pairedLines) := by
    rcases content with _ | o
    · exact fun p hp => absurd hp List.not_mem_nil
    · exact (hc o rfl).sub
  have htexts : Outline.listTextLines content.toList = (content.map (·.top.lines)).getD [] ++
      Outline.listTextLines ((content.map (·.sub)).getD []) := by
    rcases content with _ | ⟨top, sub⟩
    · rfl
    · simp [Outline.listTextLines, Outline.textLines]
  constructor
  · rw [IsPaired, FencedText, lines_listEntry]
    refine LineKinds.Run.append hfirst.isPaired (pairedLines_writtenAs.fenced_listLines hsub ?_ 2)
    exact fun p hp => (hsub p hp).imp fun _ _ _ _ => trivial
  · rw [lines_listEntry, htexts]
    refine hfirst.shows.append (shows_of_forall₂ ?_)
    exact (Outline.forall₂_listLines 2 _).imp fun _ _ => .inr

/-! ## Paragraphs -/

theorem hasPointer_eq_false {p : Text} (hp : IsContainerPrefix p) (t : Text) :
    hasPointer (p ++ (fence ++ t)) = false := by
  induction hp with
  | nil => rfl
  | space _ ih => exact ih
  | dash _ _ => rfl
  | star _ _ => rfl
  | quote _ _ => rfl

theorem fenceCount_withoutPointer (h : hasPointer l = true) :
    fenceCount (withoutPointer l) = fenceCount l := by
  have hblank : '`' ∉ l.takeWhile isBlank := fun hc =>
    absurd (List.all_eq_true.1 List.all_takeWhile _ hc) (by decide)
  obtain ⟨rest, hrest⟩ := Option.isSome_iff_exists.1 h
  have hrest : l.trimStart = '<' :: ' ' :: rest := Text.after?_eq_some_iff.1 hrest
  have hl : l = l.takeWhile isBlank ++ l.trimStart := List.takeWhile_append_dropWhile.symm
  rw [withoutPointer, fenceCount_append_of_notMem hblank]
  conv_rhs => rw [hl, fenceCount_append_of_notMem hblank]
  rw [hrest, fenceCount_cons (by decide), fenceCount_cons (by decide)]
  rfl

/-- A line that begins with a pointer opens and closes no block. -/
theorem step_withoutPointer (hp : hasPointer l = true) {a b : Bool}
    (h : writtenPairedLines.Step a l b) :
    writtenPairedLines.Step a (withoutPointer l) b ∧ HoldsPairs l := by
  have hcount := fenceCount_withoutPointer hp
  cases h with
  | text h => exact ⟨.text ((congrArg (· % 2) hcount).trans h), h⟩
  | code h => exact ⟨.code (hcount.trans h), congrArg (· % 2) h⟩
  | opening h =>
    obtain ⟨p, r, hc, rfl, -⟩ := h
    rw [hasPointer_eq_false hc] at hp
    cases hp
  | closing h =>
    obtain ⟨p, hc, rfl⟩ := h
    rw [← List.append_nil fence, hasPointer_eq_false hc] at hp
    cases hp

/-- Dropping pointers changes no line that opens or closes a block, whatever is taken for code. -/
theorem run_dropPointers {a b : Bool} (h : writtenPairedLines.Run a ls b) (inCode : Bool) :
    writtenPairedLines.Run a (dropPointers inCode ls) b ∧
      delimiters (dropPointers inCode ls) = delimiters ls := by
  induction h generalizing inCode with
  | nil b => exact ⟨.nil b, rfl⟩
  | @cons a b c l ls hl _ ih =>
    obtain ⟨inCode', hb | ⟨hp, hb⟩⟩ := dropPointers_cons_cases inCode l ls
    · obtain ⟨hrun, hdelimiters⟩ := ih inCode'
      rw [hb]
      refine ⟨.cons hl hrun, ?_⟩
      rw [← List.singleton_append, delimiters_append, hdelimiters, ← delimiters_append]
      rfl
    · obtain ⟨hrun, hdelimiters⟩ := ih inCode'
      obtain ⟨hstep, hpairs⟩ := step_withoutPointer hp hl
      have hpairs' : HoldsPairs (withoutPointer l) := by
        rwa [HoldsPairs, fenceCount_withoutPointer hp]
      rw [hb]
      refine ⟨.cons hstep hrun, ?_⟩
      rw [delimiters_cons_of_pairs hpairs, delimiters_cons_of_pairs hpairs', hdelimiters]

theorem writes_paragraph {o : Outline} (h : o.All (FencedText pairedLines)) :
    Writes o.textLines (paragraph o) := by
  obtain ⟨hpaired, hshows⟩ := Outline.writes_render h
  obtain ⟨hrun, hdelimiters⟩ := run_dropPointers hpaired false
  rw [← lines_paragraph] at hrun hdelimiters
  exact ⟨hrun, by rwa [Shows, hdelimiters]⟩

/-! ## Quotes -/

/-- A line in a block quote. -/
def quoteLine (line : Text) : Text := if line.isEmpty then ['>'] else '>' :: ' ' :: line

theorem becomes_quoteLine (l : Text) : Becomes l (quoteLine l) := by
  rw [quoteLine]
  split
  · next h =>
    rw [List.isEmpty_iff.1 h]
    exact .inl ⟨rfl, rfl⟩
  · exact .inr ((behind_self l).mark (.quote .nil))

theorem step_quoteLine {a b : Bool} (h : writtenPairedLines.Step a l b) :
    writtenPairedLines.Step a (quoteLine l) b := by
  rw [quoteLine]
  split
  · next hl =>
    rw [List.isEmpty_iff.1 hl] at h
    refine h.imp id ?_ id ?_
    · rintro ⟨p, r, -, hp, -⟩
      simp [fence] at hp
    · rintro ⟨p, -, hp⟩
      simp [fence] at hp
  · exact (IsContainerPrefix.quote .nil).step h

theorem break_notMem_quoteLine (h : '\n' ∉ l) : '\n' ∉ quoteLine l := by
  rw [quoteLine]
  split
  · decide
  · simpa using h

theorem lines_blockQuote (label : String) (o : Outline) :
    (blockQuote label o).lines = (Text.lines (label.toList ++ o.render 0)).map quoteLine := by
  refine Text.lines_unlines (List.map_eq_nil_iff.not.2 (Text.lines_ne_nil _)) ?_
  intro m hm
  obtain ⟨l, hl, rfl⟩ := List.mem_map.1 hm
  exact break_notMem_quoteLine (Text.break_notMem_of_mem_lines hl)

theorem writes_blockQuote {label : String} {o : Outline} (hlabel : IsLabel label.toList)
    (hbegin : BeginsWith HoldsPairs (o.render 0)) (h : o.All (FencedText pairedLines)) :
    Writes o.textLines (blockQuote label o) := by
  obtain ⟨hpaired, hshows⟩ := (Outline.writes_render h).label hlabel hbegin
  constructor
  · rw [IsPaired, FencedText, lines_blockQuote]
    exact hpaired.map fun _ _ _ => step_quoteLine
  · rw [lines_blockQuote]
    exact hshows.trans (shows_map fun l _ => becomes_quoteLine l)

end DoxygenMarkdown

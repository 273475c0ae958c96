import DoxygenMarkdown.Bindings.Segment
import DoxygenMarkdown.Proofs.Text.Lines

/-!
# The cut of a file is the only one

Segments are a *cut* (`IsCut`) if each of them says what its lines say and no two runs touch. Lines
have one cut up to the numbers of the lines: the segments of lines are a cut of these lines
(`isCut_ofLines`, `linesOf_ofLines`), and a cut is found again from its lines (`ofLines_linesOf`).

So whoever changes a file needs to know nothing about how it is cut. If the changed segments are a
cut, they are the segments of the changed file.
-/

namespace DoxygenMarkdown.Bindings

/-- The comment that doc attributes make up. -/
def commentOf (ds : List DocLine) : Text := Text.unlines (ds.map fun d => decodeBody d.body)

theorem commentOf_singleton (d : DocLine) : commentOf [d] = decodeBody d.body :=
  Text.unlines_singleton _

theorem commentOf_cons_cons (d d' : DocLine) (ds : List DocLine) :
    commentOf (d :: d' :: ds) = decodeBody d.body ++ '\n' :: commentOf (d' :: ds) :=
  Text.unlines_cons (List.cons_ne_nil _ _) _

/-- A run reads some doc attributes, the first of them apart, above the lines `below`. -/
structure DocRun.Reads (r : DocRun) (d : DocLine) (ds : List DocLine) (below : List Text) :
    Prop where
  source_eq : r.source.map DocLine.read? = (d :: ds).map some
  indent_eq : r.indent = d.indent
  comment_eq : r.comment = commentOf (d :: ds)
  item_eq : r.item = itemBelow below

/-- Whoever looks for an item passes over blank lines and attributes. -/
theorem itemBelow_append {ls : List Text} (h : ∀ l ∈ ls, l.allBlank = true ∨ isAttribute l = true)
    (below : List Text) : itemBelow (ls ++ below) = itemBelow below := by
  induction ls with
  | nil => rfl
  | cons l ls ih =>
    rw [List.forall_mem_cons] at h
    rw [List.cons_append, itemBelow, if_pos (Bool.or_eq_true _ _ ▸ h.1), ih h.2]

namespace Segment

/-- The lines that segments were cut from. -/
def linesOf (ss : List Segment) : List Text := ss.flatMap source

/-- Segments whose first one is not a run. -/
def BeginsNoRun (ss : List Segment) : Prop := ∀ s ∈ ss.head?, s.run? = none

/-- Segments that each say what their lines say, no run next to another. -/
inductive IsCut : List Segment → Prop
  | nil : IsCut []
  | other {line : Text} {ss : List Segment} (hline : DocLine.read? line = none) (hss : IsCut ss) :
    IsCut (other line :: ss)
  | run {r : DocRun} {d : DocLine} {ds : List DocLine} {ss : List Segment}
    (hr : r.Reads d ds (linesOf ss)) (hhead : BeginsNoRun ss) (hss : IsCut ss) :
    IsCut (run r :: ss)

/-- Segments of which the first begins on line `n`, with every run numbered by its first line. -/
def number : (n : Nat) → List Segment → List Segment
  | _, [] => []
  | n, other line :: ss => other line :: number (n + 1) ss
  | n, run r :: ss => run { r with line := n } :: number (n + r.source.length) ss

theorem linesOf_cons (s : Segment) (ss : List Segment) :
    linesOf (s :: ss) = s.source ++ linesOf ss := List.flatMap_cons

theorem beginsNoRun_number {ss : List Segment} (h : BeginsNoRun ss) (n : Nat) :
    BeginsNoRun (number n ss) := by
  rcases ss with _ | ⟨line | r, ss⟩
  · exact h
  · intro s hs
    cases hs
    rfl
  · exact absurd (h _ rfl) (Option.some_ne_none r)

/-! ## A doc attribute in front of what follows it -/

theorem ofLines_cons_of_none {line : Text} (h : DocLine.read? line = none) (n : Nat)
    (ls : List Text) : ofLines n (line :: ls) = other line :: ofLines (n + 1) ls := by
  rw [ofLines, h]

theorem ofLines_cons_of_some {line : Text} {d : DocLine} (h : DocLine.read? line = some d)
    (n : Nat) (ls : List Text) :
    ofLines n (line :: ls) = consDocLine n line d ls (ofLines (n + 1) ls) := by
  rw [ofLines, h]

theorem consDocLine_of_beginsNoRun {rest : List Segment} (h : BeginsNoRun rest) (n : Nat)
    (line : Text) (d : DocLine) (below : List Text) :
    consDocLine n line d below rest =
      run ⟨n, d.indent, decodeBody d.body, itemBelow below, [line]⟩ :: rest := by
  rcases rest with _ | ⟨line' | r, rest⟩
  · rfl
  · rfl
  · exact absurd (h _ rfl) (Option.some_ne_none r)

theorem linesOf_consDocLine (n : Nat) (line : Text) (d : DocLine) (below : List Text)
    (rest : List Segment) :
    linesOf (consDocLine n line d below rest) = line :: linesOf rest := by
  rcases rest with _ | ⟨line' | r, rest⟩ <;> rfl

/-- A run goes on with a doc attribute right above it. -/
theorem reads_cons {r : DocRun} {d d' : DocLine} {ds : List DocLine} {below : List Text}
    (hr : r.Reads d' ds below) {line : Text} (hline : DocLine.read? line = some d) (n : Nat) :
    DocRun.Reads ⟨n, d.indent, decodeBody d.body ++ '\n' :: r.comment, r.item, line :: r.source⟩
      d (d' :: ds) below where
  source_eq := by rw [List.map_cons, hline, hr.source_eq]; rfl
  indent_eq := rfl
  comment_eq := by rw [commentOf_cons_cons, hr.comment_eq]
  item_eq := hr.item_eq

theorem isCut_consDocLine {rest : List Segment} (h : IsCut rest) {line : Text} {d : DocLine}
    (hline : DocLine.read? line = some d) (n : Nat) :
    IsCut (consDocLine n line d (linesOf rest) rest) := by
  have single (hrest : BeginsNoRun rest) :
      IsCut (consDocLine n line d (linesOf rest) rest) := by
    rw [consDocLine_of_beginsNoRun hrest]
    have hsource : [line].map DocLine.read? = [d].map some := by
      rw [List.map_singleton, hline]
      rfl
    exact .run ⟨hsource, rfl, (commentOf_singleton d).symm, rfl⟩ hrest h
  cases h with
  | nil => exact single fun s hs => by cases hs
  | other hline' hss => exact single fun s hs => by cases hs; rfl
  | run hr hhead hss => exact .run (reads_cons hr hline n) hhead hss

/-! ## The segments of lines are a cut -/

/-- Cutting lines into segments loses none. -/
theorem linesOf_ofLines (n : Nat) (ls : List Text) : linesOf (ofLines n ls) = ls := by
  induction ls generalizing n with
  | nil => rfl
  | cons l ls ih =>
    rcases hl : DocLine.read? l with _ | d
    · rw [ofLines_cons_of_none hl, linesOf_cons, ih]
      rfl
    · rw [ofLines_cons_of_some hl, linesOf_consDocLine, ih]

/-- The segments of lines are a cut. -/
theorem isCut_ofLines (n : Nat) (ls : List Text) : IsCut (ofLines n ls) := by
  induction ls generalizing n with
  | nil => exact .nil
  | cons l ls ih =>
    rcases hl : DocLine.read? l with _ | d
    · rw [ofLines_cons_of_none hl]
      exact .other hl (ih (n + 1))
    · have h := isCut_consDocLine (ih (n + 1)) hl n
      rw [linesOf_ofLines] at h
      rw [ofLines_cons_of_some hl]
      exact h

/-! ## A cut is found again from its lines -/

/-- Doc attributes above lines that begin with none are one run. -/
theorem ofLines_docLines {ls : List Text} {d : DocLine} {ds : List DocLine}
    (h : ls.map DocLine.read? = (d :: ds).map some) {below : List Text} (n : Nat)
    (hbelow : BeginsNoRun (ofLines (n + ls.length) below)) :
    ofLines n (ls ++ below) =
      run ⟨n, d.indent, commentOf (d :: ds), itemBelow below, ls⟩ ::
        ofLines (n + ls.length) below := by
  induction ds generalizing ls d n with
  | nil =>
    obtain ⟨l, ls, rfl, hl, hls⟩ := List.map_eq_cons_iff.1 h
    obtain rfl := List.map_eq_nil_iff.1 hls
    rw [List.cons_append, List.nil_append, ofLines_cons_of_some hl, commentOf_singleton]
    exact consDocLine_of_beginsNoRun hbelow n l d below
  | cons d' ds ih =>
    obtain ⟨l, ls, rfl, hl, hls⟩ := List.map_eq_cons_iff.1 h
    have hlen : n + (l :: ls).length = n + 1 + ls.length := by
      rw [List.length_cons]
      omega
    rw [hlen] at hbelow ⊢
    -- the other attributes are one run, and the first one joins it
    rw [List.cons_append, ofLines_cons_of_some hl, ih hls (n + 1) hbelow, commentOf_cons_cons]
    rfl

/-- **A cut is the only one.** From the lines of a cut its segments are found again, with the runs
numbered by their first lines. -/
theorem ofLines_linesOf {ss : List Segment} (h : IsCut ss) (n : Nat) :
    ofLines n (linesOf ss) = number n ss := by
  induction h generalizing n with
  | nil => rfl
  | @other line ss hline hss ih =>
    rw [linesOf_cons, source, List.cons_append, List.nil_append, ofLines_cons_of_none hline, ih]
    rfl
  | @run r d ds ss hr hhead hss ih =>
    -- the segments below begin with no run, so the attributes end where the run does
    have hbelow := beginsNoRun_number hhead (n + r.source.length)
    rw [← ih] at hbelow
    rw [linesOf_cons, source, ofLines_docLines hr.source_eq n hbelow, ih, number, ← hr.comment_eq,
      ← hr.item_eq, ← hr.indent_eq]

end Segment

end DoxygenMarkdown.Bindings

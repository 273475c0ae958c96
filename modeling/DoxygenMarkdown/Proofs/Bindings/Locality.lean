import DoxygenMarkdown.Bindings.Conversion
import DoxygenMarkdown.Proofs.Bindings.Cut

/-!
# A file is converted run by run

What becomes of a part of a file does not depend on the rest of the file, as long as no run of doc
attributes is cut in two (`convertLines_append`). Two things keep a part from being the same
wherever it stands, and the conversion is blind to both or treats them in one way:

* runs are numbered by their first lines, so the errors of what stands further down have larger
  numbers, and differ in nothing else (`Conversion.moveDown`);
* a run knows the name of the item below it, and that item may stand in another part. But the name
  is not converted (`Segment.withoutItem`).

So runs that can be read, runs that cannot, and runs that say nothing have no influence on each
other, and a caller gets the same text whether it takes the errors or leaves them to the log
(`convert_unlines_local`).
-/

namespace DoxygenMarkdown

/-- The error of a comment that stands some lines further down. -/
def DirectionError.moveDown (k : Nat) (e : DirectionError) : DirectionError :=
  { e with line := e.line.map (· + k) }

namespace Bindings

/-- An event some lines further down. -/
def Event.moveDown (k : Nat) : Event → Event
  | leftOut n => leftOut n
  | unreadable e => unreadable (e.moveDown k)

/-- A conversion of lines that stand some lines further down. -/
def Conversion.moveDown (k : Nat) (c : Conversion) : Conversion :=
  { c with events := c.events.map (Event.moveDown k) }

/-- The conversion of some lines. -/
def convertLines (trimLines : Bool) (ls : List Text) : Conversion :=
  convertSegments trimLines (Segment.ofLines 1 ls)

variable {trimLines : Bool}

theorem convert_unlines {ls : List Text} (hne : ls ≠ []) (hbreak : ∀ l ∈ ls, '\n' ∉ l) :
    convert trimLines (Text.unlines ls) = convertLines trimLines ls := by
  rw [convert, segments, Text.lines_unlines hne hbreak]
  rfl

/-! ## Conversions, one after the other -/

namespace Conversion

theorem lines_append (c d : Conversion) : (c.append d).lines = c.lines ++ d.lines := rfl

theorem errors_append (c d : Conversion) : (c.append d).errors = c.errors ++ d.errors :=
  List.filterMap_append

theorem append_assoc (b c d : Conversion) : (b.append c).append d = b.append (c.append d) := by
  simp [append, List.append_assoc]

theorem errors_moveDown (k : Nat) (c : Conversion) :
    (c.moveDown k).errors = c.errors.map (DirectionError.moveDown k) := by
  have hevent : ∀ v : Event, (v.moveDown k).error? = v.error?.map (DirectionError.moveDown k) := by
    intro v
    cases v <;> rfl
  simp only [errors, moveDown, List.filterMap_map, List.map_filterMap, Function.comp_def, hevent]

theorem moveDown_append (k : Nat) (c d : Conversion) :
    (c.append d).moveDown k = (c.moveDown k).append (d.moveDown k) := by
  simp [append, moveDown]

theorem moveDown_moveDown (k m : Nat) (c : Conversion) :
    (c.moveDown k).moveDown m = c.moveDown (m + k) := by
  have hevent : ∀ v : Event, (v.moveDown k).moveDown m = v.moveDown (m + k) := by
    intro v
    cases v with
    | leftOut n => rfl
    | unreadable e =>
      simp [Event.moveDown, DirectionError.moveDown, Function.comp_def, Nat.add_comm m,
        Nat.add_assoc]
  simp [moveDown, Function.comp_def, hevent]

end Conversion

theorem convertSegments_append (ss ts : List Segment) :
    convertSegments trimLines (ss ++ ts) =
      (convertSegments trimLines ss).append (convertSegments trimLines ts) := by
  induction ss with
  | nil => rfl
  | cons s ss ih =>
    have hcons : ∀ us, convertSegments trimLines (s :: us) =
        (s.convert trimLines).append (convertSegments trimLines us) := fun _ => rfl
    rw [List.cons_append, hcons, hcons, ih, Conversion.append_assoc]

namespace Segment

/-! ## What the conversion does not look at -/

/-- A segment without the name of the item below it. -/
def withoutItem : Segment → Segment
  | other line => other line
  | run r => run { r with item := [] }

/-- A segment some lines further down. -/
def moveDown (k : Nat) : Segment → Segment
  | other line => other line
  | run r => run { r with line := r.line + k }

theorem convert_withoutItem (s : Segment) :
    s.withoutItem.convert trimLines = s.convert trimLines := by
  cases s <;> rfl

theorem convertSegments_withoutItem (ss : List Segment) :
    convertSegments trimLines (ss.map withoutItem) = convertSegments trimLines ss := by
  simp only [convertSegments, List.foldr_map, convert_withoutItem]

theorem convert_moveDown (k : Nat) (s : Segment) :
    (s.moveDown k).convert trimLines = (s.convert trimLines).moveDown k := by
  rcases s with line | r
  · rfl
  · simp only [moveDown, convert, DocRun.convert]
    rcases renderComment 1 r.comment with e | rendering
    · rfl
    · simp [Conversion.moveDown, Event.moveDown]

theorem convertSegments_moveDown (k : Nat) (ss : List Segment) :
    convertSegments trimLines (ss.map (moveDown k)) =
      (convertSegments trimLines ss).moveDown k := by
  induction ss with
  | nil => rfl
  | cons s ss ih =>
    have hcons : ∀ t us, convertSegments trimLines (t :: us) =
        (t.convert trimLines).append (convertSegments trimLines us) := fun _ _ => rfl
    rw [List.map_cons, hcons, hcons, ih, convert_moveDown, Conversion.moveDown_append]

/-! ## Lines that stand further down -/

theorem consDocLine_moveDown (n k : Nat) (line : Text) (d : DocLine) (below : List Text)
    (rest : List Segment) :
    consDocLine (n + k) line d below (rest.map (moveDown k)) =
      (consDocLine n line d below rest).map (moveDown k) := by
  rcases rest with _ | ⟨line' | r, rest⟩ <;> rfl

theorem ofLines_add (n k : Nat) (ls : List Text) :
    ofLines (n + k) ls = (ofLines n ls).map (moveDown k) := by
  induction ls generalizing n with
  | nil => rfl
  | cons l ls ih =>
    have hnext : ofLines (n + k + 1) ls = (ofLines (n + 1) ls).map (moveDown k) := by
      rw [← ih, Nat.add_right_comm]
    rcases hl : DocLine.read? l with _ | d
    · rw [ofLines_cons_of_none hl, ofLines_cons_of_none hl, hnext]
      rfl
    · rw [ofLines_cons_of_some hl, ofLines_cons_of_some hl, hnext, consDocLine_moveDown]

/-! ## Cutting lines where no run is cut -/

/-- No run of doc attributes goes on from some lines to the lines below them. -/
def NoRunAcross (ls ms : List Text) : Prop :=
  ∀ l ∈ ls.getLast?, ∀ m ∈ ms.head?, DocLine.read? l = none ∨ DocLine.read? m = none

theorem NoRunAcross.of_cons {l : Text} {ls ms : List Text} (hne : ls ≠ [])
    (h : NoRunAcross (l :: ls) ms) : NoRunAcross ls ms := by
  obtain ⟨k, ks, rfl⟩ := List.exists_cons_of_ne_nil hne
  intro x hx
  exact h x (by rwa [List.getLast?_cons_cons])

theorem ofLines_ne_nil {ls : List Text} (h : ls ≠ []) (n : Nat) : ofLines n ls ≠ [] := by
  intro hs
  have hlines := linesOf_ofLines n ls
  rw [hs] at hlines
  exact h hlines.symm

theorem beginsNoRun_ofLines {ms : List Text} (h : ∀ m ∈ ms.head?, DocLine.read? m = none)
    (n : Nat) : BeginsNoRun (ofLines n ms) := by
  intro s hs
  cases ms with
  | nil => cases hs
  | cons m ms =>
    rw [ofLines_cons_of_none (h m rfl)] at hs
    cases hs
    rfl

/-- A doc attribute joins what follows it in one way, whatever comes after that and whatever the
item below is. -/
theorem withoutItem_consDocLine_append {rest : List Segment} (h : rest ≠ []) (n : Nat) (line : Text)
    (d : DocLine) (below below' : List Text) {ts us : List Segment}
    (hts : ts.map withoutItem = (rest ++ us).map withoutItem) :
    (consDocLine n line d below ts).map withoutItem =
      (consDocLine n line d below' rest ++ us).map withoutItem := by
  obtain ⟨s, rest, rfl⟩ := List.exists_cons_of_ne_nil h
  obtain ⟨t, ts, rfl⟩ : ∃ t ts', ts = t :: ts' := by
    apply List.exists_cons_of_ne_nil
    rintro rfl
    simp at hts
  rw [List.cons_append, List.map_cons, List.map_cons] at hts
  obtain ⟨hhead, htail⟩ := List.cons.inj hts
  rcases s with line₁ | r₁ <;> rcases t with line₂ | r₂
  · simp only [withoutItem, Segment.other.injEq] at hhead
    rw [List.map_append] at htail
    simpa [consDocLine, withoutItem] using ⟨hhead, htail⟩
  · cases hhead
  · cases hhead
  · -- both begin with a run, and the attribute joins it
    simp only [withoutItem, Segment.run.injEq, DocRun.mk.injEq] at hhead
    simpa [consDocLine, withoutItem, hhead] using htail

/-- Where no run is cut, the segments of lines are those of the parts, the items apart. -/
theorem withoutItem_ofLines_append {ls ms : List Text} (h : NoRunAcross ls ms) (n : Nat) :
    (ofLines n (ls ++ ms)).map withoutItem =
      (ofLines n ls ++ ofLines (n + ls.length) ms).map withoutItem := by
  induction ls generalizing n with
  | nil => rfl
  | cons l ls ih =>
    have hlen : n + (l :: ls).length = n + 1 + ls.length := by
      rw [List.length_cons]
      omega
    rw [hlen, List.cons_append]
    by_cases hne : ls = []
    · subst hne
      rcases hl : DocLine.read? l with _ | d
      · rw [ofLines_cons_of_none hl, ofLines_cons_of_none hl]
        rfl
      · -- the attribute is the last line above the cut, so no run begins below it
        have hms : ∀ m ∈ ms.head?, DocLine.read? m = none := by
          intro m hm
          refine (h l rfl m hm).resolve_left ?_
          rw [hl]
          exact Option.some_ne_none d
        rw [ofLines_cons_of_some hl, ofLines_cons_of_some hl, List.nil_append,
          consDocLine_of_beginsNoRun (beginsNoRun_ofLines hms (n + 1))]
        rfl
    · have ih := ih (h.of_cons hne) (n + 1)
      rcases hl : DocLine.read? l with _ | d
      · rw [ofLines_cons_of_none hl, ofLines_cons_of_none hl, List.cons_append, List.map_cons, ih,
          List.map_cons]
      · rw [ofLines_cons_of_some hl, ofLines_cons_of_some hl]
        exact withoutItem_consDocLine_append (ofLines_ne_nil hne (n + 1)) n l d _ _ ih

end Segment

open Segment (NoRunAcross)

/-- **Lines are converted by themselves.** Where no run is cut, the conversion of lines is that of
the lines above the cut and then that of the lines below it, further down. -/
theorem convertLines_append {ls ms : List Text} (h : NoRunAcross ls ms) :
    convertLines trimLines (ls ++ ms) =
      (convertLines trimLines ls).append ((convertLines trimLines ms).moveDown ls.length) := by
  rw [convertLines, ← Segment.convertSegments_withoutItem, Segment.withoutItem_ofLines_append h,
    Segment.convertSegments_withoutItem, convertSegments_append, Segment.ofLines_add,
    Segment.convertSegments_moveDown]
  rfl

/-- A line that is no doc attribute is kept, and nothing is reported for it. -/
theorem convertLines_cons_of_none {line : Text} (h : DocLine.read? line = none) (ls : List Text) :
    convertLines trimLines (line :: ls) =
      Conversion.append ⟨[line], []⟩ ((convertLines trimLines ls).moveDown 1) := by
  have hcut : NoRunAcross [line] ls := by
    intro l hl m _
    obtain rfl : line = l := Option.some.inj hl
    exact .inl h
  have hline : convertLines trimLines [line] = ⟨[line], []⟩ := by
    rw [convertLines, Segment.ofLines_cons_of_none h]
    rfl
  rw [← List.singleton_append, convertLines_append hcut, hline]
  rfl

/-! ## Where errors are reported -/

/-- The error that is reported for a run, if it cannot be read. -/
def DocRun.error? (r : DocRun) : Option DirectionError :=
  match renderComment 1 r.comment with
  | .error e => some { e with line := some r.line }
  | .ok _ => none

/-- A run is reported once or not at all. -/
theorem DocRun.errors_convert (r : DocRun) : (r.convert trimLines).errors = r.error?.toList := by
  unfold DocRun.convert DocRun.error?
  rcases renderComment 1 r.comment with e | rendering
  · rfl
  · simp [Conversion.errors, Event.error?, Function.comp_def]

theorem errors_convertSegments (ss : List Segment) :
    (convertSegments trimLines ss).errors =
      (ss.filterMap Segment.run?).filterMap DocRun.error? := by
  induction ss with
  | nil => rfl
  | cons s ss ih =>
    have hcons : (convertSegments trimLines (s :: ss)).errors =
        (s.convert trimLines).errors ++ (convertSegments trimLines ss).errors :=
      Conversion.errors_append _ _
    rw [hcons, ih]
    rcases s with line | r
    · rfl
    · rw [Segment.convert, DocRun.errors_convert, List.filterMap_cons_some (by rfl),
        List.filterMap_cons]
      rcases r.error? with _ | e <;> rfl

namespace Segment

variable {r : DocRun} {ls : List Text} {n : Nat}

theorem line_of_run_mem_consDocLine {line : Text} {d : DocLine} {below : List Text}
    {rest : List Segment} (h : run r ∈ consDocLine n line d below rest) :
    r.line = n ∨ run r ∈ rest := by
  rcases rest with _ | ⟨line' | r', rest⟩
  all_goals
    rcases List.mem_cons.1 h with hr | hr
    · cases hr
      exact .inl rfl
  · exact .inr hr
  · exact .inr hr
  · exact .inr (List.mem_cons_of_mem _ hr)

/-- A run has the number of one of the lines that it was found in. -/
theorem line_of_run_mem (h : run r ∈ ofLines n ls) : n ≤ r.line ∧ r.line < n + ls.length := by
  induction ls generalizing n with
  | nil => cases h
  | cons l ls ih =>
    rw [List.length_cons]
    rcases hl : DocLine.read? l with _ | d
    · rw [ofLines_cons_of_none hl] at h
      have hr := ih ((List.mem_cons.1 h).resolve_left fun hr => by cases hr)
      omega
    · rw [ofLines_cons_of_some hl] at h
      rcases line_of_run_mem_consDocLine h with hr | hr
      · omega
      · have hr := ih hr
        omega

end Segment

/-- Every error that is reported for lines has the number of one of them. -/
theorem line_of_mem_errors {ls : List Text} {e : DirectionError}
    (he : e ∈ (convertLines trimLines ls).errors) :
    ∃ k, e.line = some k ∧ 1 ≤ k ∧ k ≤ ls.length := by
  rw [convertLines, errors_convertSegments, List.mem_filterMap] at he
  obtain ⟨r, hr, hre⟩ := he
  obtain ⟨s, hs, hsr⟩ := List.mem_filterMap.1 hr
  obtain rfl : s = .run r := by
    cases s with
    | other line => cases hsr
    | run r' => exact congrArg Segment.run (Option.some.inj hsr)
  obtain ⟨hlow, hhigh⟩ := Segment.line_of_run_mem hs
  refine ⟨r.line, ?_, hlow, by omega⟩
  unfold DocRun.error? at hre
  rcases hrender : renderComment 1 r.comment with e' | rendering
  · rw [hrender] at hre
    cases hre
    rfl
  · rw [hrender] at hre
    cases hre

/-! ## A run among the others -/

/-- Lines of a file that are one run: they are read as some doc attributes, and there is none right
above or right below them. -/
structure IsRunBetween (above source below : List Text) (ds : List DocLine) : Prop where
  ne_nil : ds ≠ []
  read?_eq : source.map DocLine.read? = ds.map some
  above_eq : ∀ l ∈ above.getLast?, DocLine.read? l = none
  below_eq : ∀ l ∈ below.head?, DocLine.read? l = none

section Run

variable {above source below : List Text} {ds : List DocLine} {e : DirectionError}

theorem IsRunBetween.source_ne_nil (h : IsRunBetween above source below ds) : source ≠ [] := by
  rintro rfl
  exact h.ne_nil (List.map_eq_nil_iff.1 h.read?_eq.symm)

/-- Around a run, the conversion is cut above it and below it. -/
theorem convertLines_run (h : IsRunBetween above source below ds) :
    convertLines trimLines (above ++ source ++ below) =
      ((convertLines trimLines above).append
        ((convertLines trimLines source).moveDown above.length)).append
        ((convertLines trimLines below).moveDown (above.length + source.length)) := by
  have habove : NoRunAcross above (source ++ below) := fun l hl _ _ => .inl (h.above_eq l hl)
  have hbelow : NoRunAcross source below := fun _ _ m hm => .inr (h.below_eq m hm)
  rw [List.append_assoc, convertLines_append habove, convertLines_append hbelow,
    Conversion.moveDown_append, Conversion.moveDown_moveDown, Conversion.append_assoc]

theorem convertLines_docLines (trimLines : Bool) (hne : ds ≠ [])
    (h : source.map DocLine.read? = ds.map some) :
    ∃ r : DocRun, r.line = 1 ∧ r.comment = commentOf ds ∧ r.source = source ∧
      convertLines trimLines source = (r.convert trimLines).append ⟨[], []⟩ := by
  obtain ⟨d, ds, rfl⟩ := List.exists_cons_of_ne_nil hne
  refine ⟨⟨1, d.indent, commentOf (d :: ds), itemBelow [], source⟩, rfl, rfl, rfl, ?_⟩
  have hrun : Segment.ofLines 1 (source ++ []) = _ :=
    Segment.ofLines_docLines h 1 fun s hs => by cases hs
  rw [List.append_nil] at hrun
  rw [convertLines, hrun]
  rfl

/-- A run that cannot be read stays as it is. -/
theorem lines_convertLines_of_error (hne : ds ≠ []) (h : source.map DocLine.read? = ds.map some)
    (he : renderComment 1 (commentOf ds) = .error e) :
    (convertLines trimLines source).lines = source := by
  obtain ⟨r, -, hcomment, hsource, hr⟩ := convertLines_docLines trimLines hne h
  rw [hr, Conversion.lines_append, DocRun.convert, hcomment, he, List.append_nil]
  exact hsource

/-- What is reported for a run by itself. -/
theorem errors_convertLines_docLines (hne : ds ≠ [])
    (h : source.map DocLine.read? = ds.map some) :
    (convertLines trimLines source).errors =
      match renderComment 1 (commentOf ds) with
      | .error e => [{ e with line := some 1 }]
      | .ok _ => [] := by
  obtain ⟨r, hline, hcomment, -, hr⟩ := convertLines_docLines trimLines hne h
  rw [hr, Conversion.errors_append, DocRun.errors_convert, DocRun.error?, hcomment, hline]
  rcases renderComment 1 (commentOf ds) with e | rendering <;> rfl

/-- With the number of the first line of a run, the run itself is reported and nothing else. -/
theorem filter_errors_run (h : IsRunBetween above source below ds) :
    (convertLines trimLines (above ++ source ++ below)).errors.filter
        (·.line = some (above.length + 1)) =
      match renderComment 1 (commentOf ds) with
      | .error e => [{ e with line := some (above.length + 1) }]
      | .ok _ => [] := by
  have habove : (convertLines trimLines above).errors.filter
      (·.line = some (above.length + 1)) = [] := by
    rw [List.filter_eq_nil_iff]
    intro e he
    obtain ⟨k, hk, -, hlast⟩ := line_of_mem_errors he
    rw [hk, decide_eq_true_eq, Option.some.injEq]
    omega
  have hbelow : ((convertLines trimLines below).errors.map
      (DirectionError.moveDown (above.length + source.length))).filter
      (·.line = some (above.length + 1)) = [] := by
    rw [List.filter_eq_nil_iff]
    intro e he
    obtain ⟨e', he', rfl⟩ := List.mem_map.1 he
    obtain ⟨k, hk, hfirst, -⟩ := line_of_mem_errors he'
    have hsource := List.length_pos_iff.2 h.source_ne_nil
    rw [DirectionError.moveDown, hk, decide_eq_true_eq, Option.map_some, Option.some.injEq]
    omega
  rw [convertLines_run h, Conversion.errors_append, Conversion.errors_append,
    Conversion.errors_moveDown, Conversion.errors_moveDown, List.filter_append, List.filter_append,
    habove, hbelow, errors_convertLines_docLines h.ne_nil h.read?_eq]
  rcases renderComment 1 (commentOf ds) with e | rendering
  · simp [DirectionError.moveDown, Nat.add_comm 1]
  · rfl

end Run

/-! ## The errors and the log -/

theorem level_entry_leftOut (n : Notice) : (Event.leftOut n).entry.level = .debug := by
  cases n <;> rfl

/-- A caller that takes the errors finds none of them in the log. -/
theorem errors_logOf_true (events : List Event) :
    (logOf true events).filter (·.level = .error) = [] := by
  rw [List.filter_eq_nil_iff]
  intro entry hentry
  obtain ⟨v, hv, rfl⟩ := List.mem_map.1 hentry
  cases v with
  | leftOut n => simp [level_entry_leftOut]
  | unreadable e => exact absurd (List.mem_filter.1 hv).2 Bool.false_ne_true

/-- A caller that does not take the errors finds each of them in the log, in order. -/
theorem errors_logOf_false (events : List Event) :
    (logOf false events).filter (·.level = .error) =
      (events.filterMap Event.error?).map fun e => Log.entry .error e.message := by
  induction events with
  | nil => rfl
  | cons v events ih =>
    have hlog : logOf false (v :: events) = v.entry :: logOf false events := rfl
    cases v with
    | leftOut n =>
      rw [hlog, List.filter_cons_of_neg (by simp [level_entry_leftOut]), ih]
      rfl
    | unreadable e =>
      rw [hlog, List.filter_cons_of_pos (by rfl), ih]
      rfl

/-- **Files are converted run by run.** Around a line that is no doc attribute, and around a run of
doc attributes, what becomes of a file is what becomes of its parts, with the errors of each part
moved down to where it stands. A run that cannot be read stays as it is, line for line, and is
reported exactly once, with the number of its first line. Whether the caller takes the errors makes
no difference to the text: they are found in the list or in the log, one by one. -/
theorem convert_unlines_local (trimLines : Bool) :
    (∀ (a b : List Text) (line : Text), a ≠ [] → b ≠ [] → (∀ l ∈ a ++ line :: b, '\n' ∉ l) →
      DocLine.read? line = none →
      let c := convert trimLines (Text.unlines (a ++ line :: b))
      let ca := convert trimLines (Text.unlines a)
      let cb := convert trimLines (Text.unlines b)
      c.lines = ca.lines ++ line :: cb.lines ∧
        c.errors = ca.errors ++ cb.errors.map (DirectionError.moveDown (a.length + 1))) ∧
    (∀ (above source below : List Text) (ds : List DocLine),
      IsRunBetween above source below ds → (∀ l ∈ above ++ source ++ below, '\n' ∉ l) →
      let c := convert trimLines (Text.unlines (above ++ source ++ below))
      let alone := convert trimLines (Text.unlines source)
      c.lines = (convertLines trimLines above).lines ++ alone.lines ++
          (convertLines trimLines below).lines ∧
        c.errors = (convertLines trimLines above).errors ++
          alone.errors.map (DirectionError.moveDown above.length) ++
          (convertLines trimLines below).errors.map
            (DirectionError.moveDown (above.length + source.length)) ∧
        ∀ e, renderComment 1 (commentOf ds) = .error e →
          alone.lines = source ∧
            c.errors.filter (·.line = some (above.length + 1)) =
              [{ e with line := some (above.length + 1) }]) ∧
    ∀ t : Text,
      let c := convert trimLines t
      (c.deliver true).text = (c.deliver false).text ∧ (c.deliver true).errors = some c.errors ∧
        (c.deliver true).log.filter (·.level = .error) = [] ∧
        (c.deliver false).log.filter (·.level = .error) =
          c.errors.map fun e => Log.entry .error e.message := by
  refine ⟨?_, ?_, ?_⟩
  · intro a b line ha hb hbreak hline
    rw [convert_unlines (by simp) hbreak,
      convert_unlines ha fun l hl => hbreak l (List.mem_append_left _ hl),
      convert_unlines hb fun l hl => hbreak l (List.mem_append_right _ (List.mem_cons_of_mem _ hl))]
    have hcut : NoRunAcross a (line :: b) := by
      intro l _ m hm
      obtain rfl : line = m := Option.some.inj hm
      exact .inr hline
    have h : convertLines trimLines (a ++ line :: b) =
        (convertLines trimLines a).append ((Conversion.append ⟨[line], []⟩
          ((convertLines trimLines b).moveDown 1)).moveDown a.length) := by
      rw [convertLines_append hcut, convertLines_cons_of_none hline]
    refine ⟨by rw [h]; rfl, ?_⟩
    rw [h, Conversion.moveDown_append, Conversion.moveDown_moveDown, Conversion.errors_append,
      Conversion.errors_append, Conversion.errors_moveDown, Conversion.errors_moveDown]
    rfl
  · intro above source below ds hrun hbreak
    have hsource : ∀ l ∈ source, '\n' ∉ l := fun l hl =>
      hbreak l (List.mem_append_left _ (List.mem_append_right _ hl))
    have hne : above ++ source ++ below ≠ [] := by
      simp [hrun.source_ne_nil]
    rw [convert_unlines hne hbreak, convert_unlines hrun.source_ne_nil hsource]
    refine ⟨by rw [convertLines_run hrun]; rfl, ?_, fun e he => ⟨?_, ?_⟩⟩
    · rw [convertLines_run hrun, Conversion.errors_append, Conversion.errors_append,
        Conversion.errors_moveDown, Conversion.errors_moveDown]
    · exact lines_convertLines_of_error hrun.ne_nil hrun.read?_eq he
    · rw [filter_errors_run hrun, he]
  · intro t
    exact ⟨rfl, rfl, errors_logOf_true _, errors_logOf_false _⟩

/-- A run that cannot be read, between one that says nothing and one that says something, is kept
and reported once. -/
theorem convert_unlines_local_bad_run :
    let above := ["#[doc=\"@def\"]".toList, "fn f".toList]
    let source := ["#[doc=\"a\"]".toList, "#[doc=\"@param[x\"]".toList]
    let below := [[], "#[doc=\" b\"]".toList]
    let c := convert true (Text.unlines (above ++ source ++ below))
    c.lines = "fn f".toList :: (source ++ [[], "#[doc = \"b\"]".toList]) ∧
      c.errors.filter (·.line = some 3) = [⟨"x".toList, some 3⟩] := by
  have hrun : IsRunBetween ["#[doc=\"@def\"]".toList, "fn f".toList]
      ["#[doc=\"a\"]".toList, "#[doc=\"@param[x\"]".toList] [[], "#[doc=\" b\"]".toList]
      [⟨[], "a".toList⟩, ⟨[], "@param[x".toList⟩] :=
    ⟨by decide, by decide, by decide, by decide⟩
  obtain ⟨hlines, -, herror⟩ := (convert_unlines_local true).2.1 _ _ _ _ hrun (by decide)
  exact ⟨hlines.trans rfl, (herror ⟨"x".toList, none⟩ rfl).2⟩

end Bindings

end DoxygenMarkdown

import DoxygenMarkdown.Proofs.Fences.Entries
import DoxygenMarkdown.Proofs.Fences.Kept
import DoxygenMarkdown.Proofs.Fences.Names

/-!
# The parts of a documentation and their fences

A documentation is written part by part. What a part says comes behind a heading, a label or the
name of an entry, and as long as it begins with text (`Documentation.BeginsWithText`), each part is
written with its fences in pairs and shows the blocks of its outlines (`forall₂_blocks`).

What was gathered is in the outlines of some part (`mem_parts`). So a block of code that was
gathered is found in what is written (`WritesOutlines.showsBlock`).
-/

namespace DoxygenMarkdown

open Markdown

variable {t : Text} {ls : List Text}

/-- A name holds its fences in pairs, also as code, and stands before text. -/
structure NameKeepsPairs (name : Text) (description : Option Outline) : Prop where
  holdsPairs : HoldsPairs name
  holdsPairs_codeSpan : HoldsPairs (codeSpan name)
  beginsWith : ∀ o ∈ description, BeginsWith HoldsPairs o.top

/-- What stands in the way of a block of code: the heading, the label or the name that its part
begins with stands before text, and names hold their own fences in pairs. -/
structure Documentation.BeginsWithText (doc : Documentation) : Prop where
  title : ∀ o ∈ doc.title, BeginsWith HoldsPairs o.top
  deprecated : ∀ d ∈ doc.deprecated, ∀ o ∈ d.message, BeginsWith HoldsPairs (o.render 0)
  warnings : ∀ os ∈ doc.warnings, ∀ o ∈ os, BeginsWith HoldsPairs (o.render 0)
  parameters : ∀ ps ∈ doc.parameters, ∀ p ∈ ps, NameKeepsPairs p.name p.description
  returnValues : ∀ vs ∈ doc.returnValues, ∀ v ∈ vs, NameKeepsPairs v.name v.description
  throws : ∀ vs ∈ doc.throws, ∀ v ∈ vs, NameKeepsPairs v.name v.description
  since : ∀ o ∈ doc.since, BeginsWith HoldsPairs (o.render 0)

/-- The outlines of the parts of a documentation, as they are written. -/
def Documentation.parts (doc : Documentation) : List (List Outline) :=
  (doc.title.map fun o => [.leaf o.top]).toList ++
  (doc.deprecated.map fun d => d.message.toList).toList ++
  (doc.brief.map ([·])).toList ++
  doc.description.toList ++
  (doc.warnings.getD []).map ([·]) ++
  doc.returns.toList ++
  (doc.parameters.map fun ps => ps.flatMap (·.description.toList)).toList ++
  (doc.returnValues.map fun vs => vs.flatMap (·.description.toList)).toList ++
  (doc.throws.map fun vs => vs.flatMap (·.description.toList)).toList ++
  doc.notes.toList ++
  doc.todos.toList ++
  (doc.since.map ([·])).toList

/-- A text shows the blocks of some outlines. -/
abbrev WritesOutlines (os : List Outline) (t : Text) : Prop := Writes (Outline.listTextLines os) t

theorem WritesOutlines.singleton {o : Outline} (h : Writes o.textLines t) :
    WritesOutlines [o] t := by
  rwa [WritesOutlines, Outline.listTextLines, Outline.listTextLines, List.append_nil]

/-- Texts that show their outlines do so one below the other. -/
theorem writesOutlines_intercalate {α : Type} {sep : Text}
    (hsep : ∀ {ls ms : List Text} {t u : Text}, Writes ls t → Writes ms u →
      Writes (ls ++ ms) (t ++ sep ++ u))
    {f : α → List Outline} {g : α → Text} {xs : List α}
    (h : ∀ x ∈ xs, WritesOutlines (f x) (g x)) :
    WritesOutlines (xs.flatMap f) (List.intercalate sep (xs.map g)) := by
  induction xs with
  | nil => exact writes_of_notMem List.not_mem_nil rfl
  | cons x xs ih =>
    have hx := h x List.mem_cons_self
    have hxs := ih fun y hy => h y (List.mem_cons_of_mem _ hy)
    rw [List.flatMap_cons, WritesOutlines, Outline.listTextLines_append]
    rcases xs with _ | ⟨y, ys⟩
    · rw [List.map_singleton, List.intercalate_singleton, List.flatMap_nil,
        Outline.listTextLines, List.append_nil]
      exact hx
    · rw [List.map_cons, List.map_cons, List.intercalate_cons_cons]
      exact hsep hx hxs

/-- A heading is its title behind a label. -/
theorem headingLine_eq (level : Int) (title : Text) :
    headingLine level title = (List.replicate level.toNat '#' ++ [' ']) ++ title := by
  rw [headingLine, List.append_assoc]
  rfl

/-- The signs of a heading are a label, also if there are none. -/
theorem isLabel_heading (level : Int) : IsLabel (List.replicate level.toNat '#' ++ [' ']) where
  break_notMem := by
    rw [List.mem_append, List.mem_replicate]
    simp
  holdsPairs := by
    have hsigns : '`' ∉ List.replicate level.toNat '#' := fun hc =>
      absurd (List.eq_of_mem_replicate hc) (by decide)
    rw [HoldsPairs, fenceCount_append_of_notMem hsigns]
    rfl
  endsWith := ⟨_, rfl⟩

/-- A heading stands before text. -/
theorem writes_headingLine (level : Int) (hbegin : BeginsWith HoldsPairs t) (h : Writes ls t) :
    Writes ls (headingLine level t) := by
  rw [headingLine_eq]
  exact h.label (isLabel_heading level) hbegin

/-- The entries of a part are written with their fences in pairs. -/
theorem writesOutlines_sectionOf {α : Type} {f : α → List Outline} {g : α → Text} {xs : List α}
    {title : String} (htitle : '\n' ∉ title.toList ∧ HoldsPairs title.toList) (level : Int)
    (h : ∀ x ∈ xs, WritesOutlines (f x) (g x)) :
    WritesOutlines (xs.flatMap f) (sectionOf title (xs.map g) level) := by
  have hheading : Writes [] (headingLine level title.toList) := by
    refine writes_headingLine level ?_ (writes_of_notMem htitle.1 htitle.2)
    rw [BeginsWith, Text.lines_of_notMem htitle.1]
    exact fun l hl => Option.some.inj hl ▸ htitle.2
  have hentries : WritesOutlines (xs.flatMap f) (Text.unlines (xs.map g)) := by
    refine writesOutlines_intercalate (fun ht hu => ?_) h
    rw [List.append_assoc]
    exact ht.append_break hu
  rw [sectionOf, List.append_assoc]
  exact hheading.append_breaks hentries

/-- An entry writes its text behind a star. -/
theorem writesOutlines_plainEntry {o : Outline} (h : o.All (FencedText pairedLines)) :
    WritesOutlines [o] (plainEntry o) := by
  have hcontent : ∀ p ∈ some o, p.All (FencedText pairedLines) := fun p hp => Option.some.inj hp ▸ h
  exact writes_listEntry List.not_mem_nil rfl hcontent (fun hne => absurd hne (by decide))
    List.not_mem_nil List.not_mem_nil

/-- A section of such entries writes them below its heading. -/
theorem writesOutlines_plainEntries {title : String}
    (htitle : '\n' ∉ title.toList ∧ HoldsPairs title.toList) (level : Int) {os : List Outline}
    (h : ∀ o ∈ os, o.All (FencedText pairedLines)) :
    WritesOutlines os (sectionOf title (os.map plainEntry) level) := by
  have hentries := writesOutlines_sectionOf htitle level fun o ho =>
    writesOutlines_plainEntry (h o ho)
  rwa [List.flatMap_singleton'] at hentries

/-- An entry with a name is written with its fences in pairs. -/
theorem writesOutlines_entry {name head suffix : Text} {description : Option Outline}
    (h : SplitOff (FencedText pairedLines) name description)
    (hname : NameKeepsPairs name description) (hb : '\n' ∉ name → '\n' ∉ head)
    (hhead : HoldsPairs head) (hsb : '\n' ∉ suffix) (hs : '`' ∉ suffix) :
    WritesOutlines description.toList (listEntry head description suffix) := by
  obtain ⟨hblank, hdescription⟩ := SplitOff.all h hname.holdsPairs
  have hbreak : '\n' ∉ name := fun hc => absurd (hblank _ hc) (by decide)
  exact writes_listEntry (hb hbreak) hhead hdescription (fun _ => hname.beginsWith) hsb hs

theorem break_notMem_codeSpan {name : Text} (h : '\n' ∉ name) : '\n' ∉ codeSpan name := by
  simpa [codeSpan] using h

/-- An entry with a name writes its text behind the name, if that keeps the fences in pairs. -/
theorem writesOutlines_parameterEntry {p : Parameter}
    (h : SplitOff (FencedText pairedLines) p.name p.description)
    (hname : NameKeepsPairs p.name p.description) :
    WritesOutlines p.description.toList (parameterEntry p) := by
  have hentry : ∀ suffix : Text, '\n' ∉ suffix → '`' ∉ suffix →
      WritesOutlines p.description.toList (listEntry (codeSpan p.name) p.description suffix) :=
    fun _ => writesOutlines_entry h hname break_notMem_codeSpan hname.holdsPairs_codeSpan
  rw [parameterEntry]
  split
  · next d hd => cases d <;> exact hentry _ (by decide) (by decide)
  · exact hentry [] List.not_mem_nil List.not_mem_nil

theorem writesOutlines_returnValueEntry {v : Explained}
    (h : SplitOff (FencedText pairedLines) v.name v.description)
    (hname : NameKeepsPairs v.name v.description) :
    WritesOutlines v.description.toList (returnValueEntry v) :=
  writesOutlines_entry h hname break_notMem_codeSpan hname.holdsPairs_codeSpan List.not_mem_nil
    List.not_mem_nil

theorem writesOutlines_throwsEntry {v : Explained}
    (h : SplitOff (FencedText pairedLines) v.name v.description)
    (hname : NameKeepsPairs v.name v.description) :
    WritesOutlines v.description.toList (throwsEntry v) := by
  refine writesOutlines_entry h hname (fun hb => ?_) ?_ List.not_mem_nil List.not_mem_nil
  · simpa using break_notMem_codeSpan hb
  · rw [HoldsPairs, fenceCount_append_of_notMem_right _ (by decide), fenceCount_cons (by decide)]
    exact hname.holdsPairs_codeSpan

/-- Paragraphs are written with an empty line between them. -/
theorem writesOutlines_paragraphs {os : List Outline}
    (h : ∀ o ∈ os, o.All (FencedText pairedLines)) :
    WritesOutlines os (List.intercalate "\n\n".toList (os.map paragraph)) := by
  have hparagraphs : WritesOutlines (os.flatMap ([·]))
      (List.intercalate "\n\n".toList (os.map paragraph)) := by
    refine writesOutlines_intercalate (fun ht hu => ?_) fun o ho =>
      .singleton (writes_paragraph (h o ho))
    rw [List.append_assoc]
    exact ht.append_breaks hu
  rwa [List.flatMap_singleton'] at hparagraphs

theorem isLabel_deprecation :
    IsLabel ("**Warning!** This is deprecated!".toList ++ " - ".toList) :=
  ⟨by decide, by decide, "**Warning!** This is deprecated! -".toList, by decide⟩

theorem isLabel_warning : IsLabel "**Warning:** ".toList :=
  ⟨by decide, by decide, "**Warning:**".toList, by decide⟩

theorem isLabel_since : IsLabel "Available since: ".toList :=
  ⟨by decide, by decide, "Available since:".toList, by decide⟩

/-- The message of a deprecation is written behind a label. -/
theorem writesOutlines_deprecation {d : Deprecation}
    (hbegin : ∀ o ∈ d.message, BeginsWith HoldsPairs (o.render 0))
    (h : ∀ o ∈ d.message, o.All (FencedText pairedLines)) :
    WritesOutlines d.message.toList (deprecation d) := by
  rcases d with ⟨isDeprecated, _ | message⟩
  · exact writes_of_notMem (t := "**Warning!** This is deprecated!".toList) (by decide) (by decide)
  · have hmessage := (Outline.writes_render (h message rfl)).label isLabel_deprecation
      (hbegin message rfl)
    rw [List.append_assoc] at hmessage
    exact .singleton hmessage

theorem forall₂_toList {α β γ : Type} {R : β → γ → Prop} {f : α → β} {g : α → γ} {x : Option α}
    (h : ∀ a ∈ x, R (f a) (g a)) : List.Forall₂ R (x.map f).toList (x.map g).toList := by
  rcases x with _ | a
  · exact .nil
  · exact .cons (h a rfl) .nil

theorem forall₂_map {α β γ : Type} {R : β → γ → Prop} {f : α → β} {g : α → γ} {xs : List α}
    (h : ∀ a ∈ xs, R (f a) (g a)) : List.Forall₂ R (xs.map f) (xs.map g) :=
  List.forall₂_map_left_iff.2 (List.forall₂_map_right_iff.2 (List.forall₂_same.2 h))

theorem forall_mem_of_part? {α : Type} {P : α → Prop} {xs ys : List α} (h : ∀ x ∈ xs, P x)
    (hys : ys ∈ Gathering.part? xs) : ∀ y ∈ ys, P y := by
  rw [Gathering.part?] at hys
  split at hys
  · cases hys
  · cases hys
    exact h

/-- Every part of a documentation is written with its fences in pairs, and shows the blocks of its
outlines. -/
theorem forall₂_blocks {g : Gathering} (h : g.All (FencedText pairedLines))
    (hbegin : g.documentation.BeginsWithText) (level : Int) :
    List.Forall₂ WritesOutlines g.documentation.parts (blocks level g.documentation) := by
  have htitle : ∀ o ∈ g.documentation.title,
      WritesOutlines [.leaf o.top] (headingLine level o.top) := by
    intro o ho
    refine .singleton (writes_headingLine level (hbegin.title o ho) ?_)
    have htexts : (Outline.leaf o.top).textLines = o.top.lines := by
      rw [Outline.leaf, Outline.textLines, Outline.listTextLines, List.append_nil]
    rw [htexts]
    exact (h.title o ho).top.writes
  have hdeprecated : ∀ d ∈ g.documentation.deprecated,
      WritesOutlines d.message.toList (deprecation d) := fun d hd =>
    writesOutlines_deprecation (hbegin.deprecated d hd) (h.deprecated d hd)
  have hbrief : ∀ o ∈ g.documentation.brief, WritesOutlines [o] (o.render 0) := fun o ho =>
    .singleton (Outline.writes_render (h.brief o ho))
  have hdescription : ∀ os ∈ g.documentation.description,
      WritesOutlines os (List.intercalate "\n\n".toList (os.map paragraph)) := fun os hos =>
    writesOutlines_paragraphs (forall_mem_of_part? h.description hos)
  have hwarnings : ∀ o ∈ g.documentation.warnings.getD [],
      WritesOutlines [o] (blockQuote "**Warning:** " o) := by
    intro o ho
    obtain ⟨os, hos, ho⟩ : ∃ os, os ∈ g.documentation.warnings ∧ o ∈ os := by
      rcases hw : g.documentation.warnings with _ | os
      · rw [hw] at ho
        exact absurd ho List.not_mem_nil
      · rw [hw] at ho
        exact ⟨os, rfl, ho⟩
    exact .singleton (writes_blockQuote isLabel_warning (hbegin.warnings os hos o ho)
      (forall_mem_of_part? h.warnings hos o ho))
  have hreturns : ∀ os ∈ g.documentation.returns,
      WritesOutlines os (sectionOf "Returns" (os.map plainEntry) level) := fun os hos =>
    writesOutlines_plainEntries (by decide) level (forall_mem_of_part? h.returns hos)
  have hparameters : ∀ ps ∈ g.documentation.parameters,
      WritesOutlines (ps.flatMap (·.description.toList))
        (sectionOf "Arguments" (ps.map parameterEntry) level) := fun ps hps =>
    writesOutlines_sectionOf (by decide) level fun p hp =>
      writesOutlines_parameterEntry (forall_mem_of_part? h.parameters hps p hp)
        (hbegin.parameters ps hps p hp)
  have hreturnValues : ∀ vs ∈ g.documentation.returnValues,
      WritesOutlines (vs.flatMap (·.description.toList))
        (sectionOf "Return values" (vs.map returnValueEntry) level) := fun vs hvs =>
    writesOutlines_sectionOf (by decide) level fun v hv =>
      writesOutlines_returnValueEntry (forall_mem_of_part? h.returnValues hvs v hv)
        (hbegin.returnValues vs hvs v hv)
  have hthrows : ∀ vs ∈ g.documentation.throws,
      WritesOutlines (vs.flatMap (·.description.toList))
        (sectionOf "Throws" (vs.map throwsEntry) level) := fun vs hvs =>
    writesOutlines_sectionOf (by decide) level fun v hv =>
      writesOutlines_throwsEntry (forall_mem_of_part? h.throws hvs v hv)
        (hbegin.throws vs hvs v hv)
  have hnotes : ∀ os ∈ g.documentation.notes,
      WritesOutlines os (sectionOf "Notes" (os.map plainEntry) level) := fun os hos =>
    writesOutlines_plainEntries (by decide) level (forall_mem_of_part? h.notes hos)
  have htodos : ∀ os ∈ g.documentation.todos,
      WritesOutlines os (sectionOf "To Do" (os.map plainEntry) level) := fun os hos =>
    writesOutlines_plainEntries (by decide) level (forall_mem_of_part? h.todos hos)
  have hsince : ∀ o ∈ g.documentation.since,
      WritesOutlines [o] (blockQuote "Available since: " o) := fun o ho =>
    .singleton (writes_blockQuote isLabel_since (hbegin.since o ho) (h.since o ho))
  have hself : ∀ {x : Option (List Outline)} {f : List Outline → Text},
      (∀ os ∈ x, WritesOutlines os (f os)) →
      List.Forall₂ WritesOutlines x.toList (x.map f).toList := by
    rintro (_ | os) f hos
    · exact .nil
    · exact .cons (hos os rfl) .nil
  -- the parts in the order in which they are written
  have hfirst := List.rel_append (List.rel_append (List.rel_append (List.rel_append
    (forall₂_toList htitle) (forall₂_toList hdeprecated)) (forall₂_toList hbrief))
    (hself hdescription)) (forall₂_map hwarnings)
  have hnamed := List.rel_append (List.rel_append (List.rel_append (List.rel_append hfirst
    (hself hreturns)) (forall₂_toList hparameters)) (forall₂_toList hreturnValues))
    (forall₂_toList hthrows)
  exact List.rel_append (List.rel_append (List.rel_append hnamed (hself hnotes)) (hself htodos))
    (forall₂_toList hsince)

/-- What is written below each other. -/
theorem writes_flatMap_breaks {oss : List (List Outline)} {ts : List Text}
    (h : List.Forall₂ WritesOutlines oss ts) :
    WritesOutlines oss.flatten (ts.flatMap (· ++ "\n\n".toList)) := by
  induction h with
  | nil => exact writes_of_notMem List.not_mem_nil rfl
  | cons hx _ ih =>
    rw [List.flatten_cons, List.flatMap_cons, WritesOutlines, Outline.listTextLines_append,
      List.append_assoc]
    exact hx.append_breaks ih

/-! ## What was gathered -/

theorem part?_of_mem {α : Type} {x : α} {xs : List α} (h : x ∈ xs) :
    Gathering.part? xs = some xs := by
  rw [Gathering.part?, List.isEmpty_eq_false_iff.2 (List.ne_nil_of_mem h)]
  rfl

/-- What was gathered for a part is in the documentation. -/
theorem mem_parts {g : Gathering} {r : Role} {o : Outline} (ho : o ∈ g.outlines r) :
    o ∈ g.documentation.parts.flatten := by
  rw [List.mem_flatten]
  cases r with
  | title =>
    obtain ⟨title, htitle, rfl⟩ := Option.map_eq_some_iff.1 (Option.mem_toList.1 ho)
    exact ⟨_, by simp [Documentation.parts, Gathering.documentation, htitle],
      List.mem_singleton_self _⟩
  | deprecated =>
    obtain ⟨d, hd, hmessage⟩ := Option.bind_eq_some_iff.1 (Option.mem_toList.1 ho)
    refine ⟨d.message.toList, ?_, Option.mem_toList.2 hmessage⟩
    simp [Documentation.parts, Gathering.documentation, hd]
  | brief | since =>
    have ho := Option.mem_toList.1 ho
    exact ⟨[o], by simp [Documentation.parts, Gathering.documentation, ho],
      List.mem_singleton_self _⟩
  | warning =>
    simp only [Gathering.outlines] at ho
    refine ⟨[o], ?_, List.mem_singleton_self _⟩
    simp [Documentation.parts, Gathering.documentation, part?_of_mem ho, ho]
  | details | todo | returns | note =>
    simp only [Gathering.outlines] at ho
    exact ⟨_, by simp [Documentation.parts, Gathering.documentation, part?_of_mem ho], ho⟩
  | parameter | returnValue | throws =>
    simp only [Gathering.outlines] at ho
    obtain ⟨x, hx, -⟩ := List.mem_flatMap.1 ho
    exact ⟨_, by simp [Documentation.parts, Gathering.documentation, part?_of_mem hx], ho⟩
  | _ => cases ho

/-- A block that a gathered part holds is found in whatever the parts are written as. -/
theorem WritesOutlines.showsBlock {g : Gathering} {r : Role} {block : List Text} {level : Nat}
    (h : WritesOutlines g.documentation.parts.flatten t) (hb : IsCodeBlock pairedLines block)
    (hholds : SomeHolds pairedLines block level (g.outlines r)) : ShowsBlock block t.lines := by
  obtain ⟨o, ho, hblock⟩ := hholds
  obtain ⟨above, below, hlines⟩ := hblock.exists_textLines
  obtain ⟨above', below', hall⟩ := Outline.exists_listTextLines (mem_parts ho)
  have hshows := h.shows
  have hsplit : above' ++ (above ++ block ++ below) ++ below' =
      (above' ++ above) ++ block ++ (below ++ below') := by simp
  rw [hall, hlines, hsplit] at hshows
  exact hshows.block hb

end DoxygenMarkdown

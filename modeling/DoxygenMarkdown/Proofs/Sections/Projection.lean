import DoxygenMarkdown.Proofs.Fences.Names
import DoxygenMarkdown.Proofs.Sections.Parts
import DoxygenMarkdown.Proofs.Tag
import DoxygenMarkdown.Proofs.Text.Words
import Mathlib.Data.List.Forall2

/-!
# Every part is a projection

Gathering is one fold with a long dispatch, and elements of all kinds come in any order. Still, each
part of the documentation but the paragraphs is a projection: it is read off the tags that belong to
it, and it is the same whatever stands between them (`Documentation.ofElements_isProjection`).

* Parts that the buffer does not go to are left alone by everything but their own tags
  (`Gathering.restrict_take_of_ne`). So such a part is a fold over what these tags say
  (`Gathering.foldl_take_eq`), and of the parts each is one case of that.
* An entry with a name is cut out of a content at its first word (`Outline.IsNamed`), and it is
  there if there is a word at all. Its direction is what its qualifiers say (`IsDirection`).

The tags of each part are written out here, so this is also about the table that assigns them their
roles (`Tag.mem_named_iff`).
-/

namespace DoxygenMarkdown

/-! ## What a part is read off -/

/-- What an element says under one of some tags, with the qualifiers of the tag. -/
def Element.underTags? (tags : List String) : Element → Option (List Text × Outline)
  | tagged tag qualifiers content =>
    if ∃ name ∈ tags, name.toList = tag then some (qualifiers, content) else none
  | _ => none

/-- What is said under some tags, in order. -/
def underTags (tags : List String) (es : List Element) : List (List Text × Outline) :=
  es.filterMap (Element.underTags? tags)

/-- What is said under some tags, as far as it begins with a name. -/
def namedUnderTags (tags : List String) (es : List Element) : List (List Text × Outline) :=
  (underTags tags es).filter (·.2.top.words ≠ [])

/-- A content is a name and what is said about it. The name is the first word. What is said is the
text from the next word on, with all items, or nothing if there is neither text nor item. -/
def Outline.IsNamed (content : Outline) (name : Text) (description : Option Outline) : Prop :=
  ∃ before gap rest : Text,
    content.top = before ++ (name ++ (gap ++ rest)) ∧
    before.allBlank = true ∧ (name ≠ [] ∧ ∀ c ∈ name, isBlank c = false) ∧
    gap.allBlank = true ∧ (gap = [] → rest = []) ∧ (∀ c ∈ rest.head?, isBlank c = false) ∧
    description = if rest = [] ∧ content.sub = [] then none else some ⟨rest, content.sub⟩

/-- A direction is what qualifiers say: inwards, outwards, both ways, or nothing. -/
structure IsDirection (qualifiers : List Text) (d : Option Direction) : Prop where
  both : d = some .both ↔ "in".toList ∈ qualifiers ∧ "out".toList ∈ qualifiers
  input : d = some .input ↔ "in".toList ∈ qualifiers ∧ "out".toList ∉ qualifiers
  output : d = some .output ↔ "in".toList ∉ qualifiers ∧ "out".toList ∈ qualifiers
  none : d = none ↔ "in".toList ∉ qualifiers ∧ "out".toList ∉ qualifiers

/-- Short descriptions as one: their texts below each other, and the items of all. -/
def Outline.joinAll? : List Outline → Option Outline
  | [] => none
  | o :: os => some ⟨Text.unlines ((o :: os).map top), (o :: os).flatMap sub⟩

/-- A part lists an entry for each of some contents, in order, and is absent if there are none. -/
def Lists {α β : Type} (IsEntry : α → β → Prop) (xs : List α) (part : Option (List β)) : Prop :=
  List.Forall₂ IsEntry xs (part.getD []) ∧ (part = none ↔ xs = [])

/-- The parts of a documentation other than its paragraphs are what some elements say under the tags
of each part. -/
structure Documentation.IsProjection (d : Documentation) (es : List Element) : Prop where
  title : d.title = (underTags ["name"] es).getLast?.map (·.2)
  brief : d.brief = Outline.joinAll? ((underTags ["brief", "short"] es).map (·.2))
  parameters : Lists (fun s p => s.2.IsNamed p.name p.description ∧ IsDirection s.1 p.direction)
    (namedUnderTags ["param"] es) d.parameters
  /-- The last deprecation counts, and has a message unless its content holds nothing. -/
  deprecated : d.deprecated = (underTags ["deprecated"] es).getLast?.map fun s =>
    ⟨true, if s.2 = ⟨[], []⟩ then none else some s.2⟩
  notes : Lists (fun s o => o = s.2) (underTags ["note", "remark", "remarks"] es) d.notes
  warnings : Lists (fun s o => o = s.2) (underTags ["warning", "attention"] es) d.warnings
  returns : Lists (fun s o => o = s.2) (underTags ["return", "returns", "result"] es) d.returns
  returnValues : Lists (fun s v => s.2.IsNamed v.name v.description)
    (namedUnderTags ["retval"] es) d.returnValues
  throws : Lists (fun s v => s.2.IsNamed v.name v.description)
    (namedUnderTags ["throw", "throws", "exception"] es) d.throws
  since : d.since = (underTags ["since"] es).getLast?.map (·.2)

/-- The direction that is gathered is the one that the qualifiers name. -/
theorem isDirection_ofQualifiers (qualifiers : List Text) :
    IsDirection qualifiers (Direction.ofQualifiers? qualifiers) := by
  constructor <;> simp only [← List.contains_iff_mem, Direction.ofQualifiers?] <;>
    cases qualifiers.contains "in".toList <;> cases qualifiers.contains "out".toList <;> decide

/-! ## The tags of a role -/

theorem Element.underTags?_named (e : Element) (r : Role) :
    e.underTags? (Tag.named r) =
      if e.role? = some r then e.underTags? (Tag.named r) else none := by
  split
  · rfl
  · next hr =>
    cases e with
    | tagged tag qualifiers content =>
      exact if_neg fun hmem => hr (Tag.mem_named_iff.1 (List.mem_map.2 hmem))
    | _ => rfl

/-! ## What a part is left alone by -/

/-- The part for a role is written to by its tags directly, not by way of the buffer. -/
def Role.IsDirect (r : Role) : Prop := r ≠ .details ∧ r ≠ .todo

instance (r : Role) : Decidable r.IsDirect :=
  inferInstanceAs (Decidable (r ≠ .details ∧ r ≠ .todo))

namespace Gathering

variable {r : Role}

/-- The paragraphs are no such part. -/
theorem restrict_setParagraphs (hr : r.IsDirect) (g : Gathering) (description todos : List Outline)
    (buffer : Option Buffer) (joinable : Bool) :
    Gathering.restrict { g with description, todos, buffer, joinable } r = g.restrict r := by
  cases r with
  | details => exact absurd rfl hr.1
  | todo => exact absurd rfl hr.2
  | _ => rfl

/-- Only the two sections of a buffer can change when it is closed. -/
theorem restrict_closeBuffer (hr : r.IsDirect) (g : Gathering) :
    g.closeBuffer.restrict r = g.restrict r := by
  unfold closeBuffer
  split
  · rfl
  split
  · exact restrict_setParagraphs hr g _ _ _ _
  · exact restrict_setParagraphs hr g _ _ _ _

/-- A line without a tag goes to the buffer or to the description. -/
theorem restrict_takeLine (hr : r.IsDirect) (g : Gathering) (content : Outline) :
    (g.takeLine content).restrict r = g.restrict r := by
  unfold takeLine
  split
  · rfl
  split
  · exact restrict_setParagraphs hr g _ _ _ _
  · exact restrict_setParagraphs hr g _ _ _ _

theorem restrict_takeCode (hr : r.IsDirect) (g : Gathering) (content : Outline) :
    (g.takeCode content).restrict r = g.restrict r := by
  unfold takeCode
  split
  · exact restrict_setParagraphs hr g _ _ _ _
  · exact restrict_setParagraphs hr g _ _ _ _

theorem restrict_setJoinable (hr : r.IsDirect) (g : Gathering) (joinable : Bool) :
    Gathering.restrict { g with joinable } r = g.restrict r :=
  restrict_setParagraphs hr g g.description g.todos g.buffer joinable

/-- Everything but its own tags leaves such a part alone. -/
theorem restrict_take_of_ne (hr : r.IsDirect) {e : Element} (hne : e.role? ≠ some r)
    (g : Gathering) : (g.take e).restrict r = g.restrict r := by
  by_cases hsorted : e.IsSorted
  · have hpart := part_take_of_ne hsorted hne g
    rwa [part, part, restrict_closeBuffer hr, restrict_closeBuffer hr] at hpart
  cases e with
  | separator | groupOpen | groupClose | bareMarker => exact absurd trivial hsorted
  | plain content => exact restrict_takeLine hr g content
  | tagged tag qualifiers content =>
    rcases hrole : Tag.role? tag with _ | r'
    · rw [take, hrole]
      exact restrict_setJoinable hr g false
    · obtain rfl : r' = .code := Classical.byContradiction fun hcode => hsorted ⟨r', hrole, hcode⟩
      rw [take_tagged hrole]
      exact (restrict_takeCode hr _ content).trans (restrict_setJoinable hr g false)

/-! ## A part is a fold over its own tags -/

variable {β : Type} {f : Gathering → β} {add : β → List Text × Outline → β}

/-- **A part is a fold over what its tags say.** This is for what is read off such a part, and says
how one tag changes it. -/
theorem foldl_take_eq (hr : r.IsDirect) (hf : ∀ g : Gathering, f (g.restrict r) = f g)
    (hadd : ∀ (g : Gathering) tag qualifiers content,
      f (g.takeRole tag qualifiers content r) = add (f g) (qualifiers, content))
    (es : List Element) (g : Gathering) :
    f (es.foldl take g) = (underTags (Tag.named r) es).foldl add (f g) := by
  induction es generalizing g with
  | nil => rfl
  | cons e es ih =>
    rw [List.foldl_cons, ih, underTags, underTags, List.filterMap_cons, Element.underTags?_named]
    by_cases he : e.role? = some r
    · cases e with
      | tagged tag qualifiers content =>
        have hstep : f (g.take (.tagged tag qualifiers content)) =
            add (f g) (qualifiers, content) := by
          rw [take_tagged he, hadd, ← hf, restrict_setJoinable hr, hf]
        rw [if_pos he, Element.underTags?, if_pos (List.mem_map.1 (Tag.mem_named_iff.2 he)),
          List.foldl_cons, hstep]
      | _ => cases he
    · rw [if_neg he, ← hf (g.take e), restrict_take_of_ne hr he, hf]

/-- The same once the buffer is closed, from the start. -/
theorem ofElements_eq (hr : r.IsDirect) (hf : ∀ g : Gathering, f (g.restrict r) = f g)
    (hadd : ∀ (g : Gathering) tag qualifiers content,
      f (g.takeRole tag qualifiers content r) = add (f g) (qualifiers, content))
    (es : List Element) :
    f (ofElements es) = (underTags (Tag.named r) es).foldl add (f {}) := by
  rw [← foldl_take_eq hr hf hadd, ofElements, ← hf, restrict_closeBuffer hr, hf]

end Gathering

/-! ## The shapes of the folds -/

theorem foldl_append_toList {α β : Type} (value? : α → Option β) (xs : List α) (ys : List β) :
    xs.foldl (fun ys x => ys ++ (value? x).toList) ys = ys ++ xs.filterMap value? := by
  induction xs generalizing ys with
  | nil => exact (List.append_nil ys).symm
  | cons x xs ih =>
    rw [List.foldl_cons, ih, List.filterMap_cons]
    rcases value? x with _ | y
    · rw [Option.toList_none, List.append_nil]
    · rw [Option.toList_some, List.append_assoc, List.singleton_append]

theorem foldl_some {α β : Type} (value : α → β) (xs : List α) (y : Option β) :
    xs.foldl (fun _ x => some (value x)) y = (xs.getLast?.map value).or y := by
  induction xs generalizing y with
  | nil => rfl
  | cons x xs ih =>
    rw [List.foldl_cons, ih, List.getLast?_cons]
    rcases xs.getLast? with _ | z <;> rfl

theorem foldl_joinBrief (os : List Outline) (b : Outline) :
    os.foldl (fun b o => some (Gathering.joinBrief b o)) (some b) = Outline.joinAll? (b :: os) := by
  induction os generalizing b with
  | nil =>
    cases b
    simp [Outline.joinAll?]
  | cons o os ih =>
    rw [List.foldl_cons, ih, Outline.joinAll?, Outline.joinAll?, Gathering.joinBrief]
    rcases os with _ | ⟨p, os⟩ <;>
      simp [Outline.addLine, Text.unlines_cons_cons]

/-- A list of entries lists one for each content that passes a test, if those are the ones that have
an entry. -/
theorem lists_part? {α β : Type} {IsEntry : α → β → Prop} {value? : α → Option β} {p : α → Bool}
    (hnone : ∀ x, p x = false → value? x = none)
    (hsome : ∀ x, p x = true → ∃ y, value? x = some y ∧ IsEntry x y) (xs : List α) :
    Lists IsEntry (xs.filter p) (Gathering.part? (xs.filterMap value?)) := by
  have hentries : List.Forall₂ IsEntry (xs.filter p) (xs.filterMap value?) := by
    induction xs with
    | nil => exact .nil
    | cons x xs ih =>
      cases hx : p x with
      | false => rwa [List.filter_cons_of_neg (by simp [hx]), List.filterMap_cons_none (hnone x hx)]
      | true =>
        obtain ⟨y, hy, hentry⟩ := hsome x hx
        rw [List.filter_cons_of_pos hx, List.filterMap_cons_some hy]
        exact .cons hentry ih
  have habsent : Gathering.part? (xs.filterMap value?) = none ↔ xs.filterMap value? = [] := by
    rcases xs.filterMap value? with _ | ⟨y, ys⟩ <;> simp [Gathering.part?]
  refine ⟨by rwa [Gathering.getD_part?], habsent.trans ?_⟩
  rw [← List.length_eq_zero_iff, ← hentries.length_eq, List.length_eq_zero_iff]

/-! ## Entries with names -/

/-- A content is named by what is split off it. -/
theorem Outline.isNamed_of_splitName {content : Outline} {name : Text}
    {description : Option Outline} (h : content.splitName? = some (name, description))
    (hne : name ≠ []) :
    content.IsNamed name description := by
  obtain ⟨u, htop, hname, hu, hdescription⟩ := exists_of_splitName h
  refine ⟨content.top.takeWhile isBlank, u.takeWhile isBlank, u.trimStart, ?_, List.all_takeWhile,
    ⟨hne, hname⟩, List.all_takeWhile, ?_, fun c hc => Text.eq_false_of_mem_head?_dropWhile hc, ?_⟩
  · have hrest : u.takeWhile isBlank ++ u.trimStart = u := List.takeWhile_append_dropWhile
    rw [hrest, ← htop]
    exact List.takeWhile_append_dropWhile.symm
  · intro hgap
    rcases u with _ | ⟨c, u⟩
    · rfl
    · rw [List.takeWhile_cons_of_pos (hu c rfl)] at hgap
      cases hgap
  · rw [hdescription]
    simp only [Bool.and_eq_true, List.isEmpty_iff]

/-- A content without words has no name, and any other is named by its first word. -/
theorem Outline.splitName?_cases (content : Outline) :
    (content.top.words = [] ∧ content.splitName? = none) ∨
      content.top.words ≠ [] ∧ ∃ name description,
        content.splitName? = some (name, description) ∧ content.IsNamed name description := by
  rcases hstart : content.top.trimStart with _ | ⟨c, start⟩
  · refine .inl ⟨?_, ?_⟩
    · rw [← Text.words_trimStart, hstart]
      rfl
    · rw [splitName?, hstart]
      rfl
  · have hc : isBlank c = false := Text.eq_false_of_mem_head?_dropWhile
      (p := isBlank) (t := content.top) (by rw [← Text.trimStart, hstart]; rfl)
    refine .inr ⟨?_, ?_⟩
    · rw [← Text.words_trimStart, hstart, Text.words_eq_cons (List.cons_ne_nil c start)
        (fun d hd => Option.some.inj hd ▸ hc)]
      exact List.cons_ne_nil _ _
    · have hname : (c :: start).takeWhile (!isBlank ·) ≠ [] := by
        rw [List.takeWhile_cons_of_pos (by simp [hc])]
        exact List.cons_ne_nil _ _
      have hsplit : ∃ description, content.splitName? =
          some ((c :: start).takeWhile (!isBlank ·), description) := by
        simp only [splitName?, hstart, List.isEmpty_iff, if_neg hname]
        split
        · exact ⟨_, rfl⟩
        · exact ⟨_, rfl⟩
      obtain ⟨description, hsplit⟩ := hsplit
      exact ⟨_, description, hsplit, isNamed_of_splitName hsplit hname⟩

/-! ## All parts -/

namespace Gathering

variable {r : Role}

/-- A part for which the last tag counts. -/
theorem eq_last (hr : r.IsDirect) {β : Type} {f : Gathering → Option β} {value : Outline → β}
    (hf : ∀ g : Gathering, f (g.restrict r) = f g) (hinit : f {} = none)
    (hadd : ∀ (g : Gathering) tag qualifiers content,
      f (g.takeRole tag qualifiers content r) = some (value content))
    (es : List Element) :
    f (ofElements es) = (underTags (Tag.named r) es).getLast?.map fun s => value s.2 := by
  have hfold : f (ofElements es) =
      (underTags (Tag.named r) es).foldl (fun _ s => some (value s.2)) (f {}) :=
    ofElements_eq hr hf hadd es
  rw [hfold, foldl_some fun s : List Text × Outline => value s.2, hinit, Option.or_none]

/-- A part that is a list of what its tags say. -/
theorem lists_contents (hr : r.IsDirect) {f : Gathering → List Outline}
    (hf : ∀ g : Gathering, f (g.restrict r) = f g) (hinit : f {} = [])
    (hadd : ∀ (g : Gathering) tag qualifiers content,
      f (g.takeRole tag qualifiers content r) = f g ++ [content])
    (es : List Element) :
    Lists (fun s o => o = s.2) (underTags (Tag.named r) es) (part? (f (ofElements es))) := by
  have hfold : f (ofElements es) =
      (underTags (Tag.named r) es).foldl (fun os s => os ++ (some s.2).toList) (f {}) :=
    ofElements_eq hr hf hadd es
  rw [hfold, foldl_append_toList, hinit, List.nil_append]
  have hlists : Lists (fun s o => o = s.2) ((underTags (Tag.named r) es).filter fun _ => true)
      (part? ((underTags (Tag.named r) es).filterMap fun s => some s.2)) :=
    lists_part? (fun _ h => by cases h) (fun s _ => ⟨s.2, rfl, rfl⟩) _
  rwa [List.filter_true] at hlists

/-- A part that is a list of entries, each with a name. -/
theorem lists_named {β : Type} (hr : r.IsDirect) {f : Gathering → List β}
    {entry : List Text → Text × Option Outline → β} {R : List Text × Outline → β → Prop}
    (hf : ∀ g : Gathering, f (g.restrict r) = f g) (hinit : f {} = [])
    (hadd : ∀ (g : Gathering) tag qualifiers content,
      f (g.takeRole tag qualifiers content r) =
        f g ++ (content.splitName?.map (entry qualifiers)).toList)
    (hR : ∀ qualifiers content name description, content.IsNamed name description →
      R (qualifiers, content) (entry qualifiers (name, description)))
    (es : List Element) :
    Lists R (namedUnderTags (Tag.named r) es) (part? (f (ofElements es))) := by
  have hfold : f (ofElements es) = (underTags (Tag.named r) es).foldl
      (fun vs s => vs ++ (s.2.splitName?.map (entry s.1)).toList) (f {}) :=
    ofElements_eq hr hf hadd es
  rw [hfold, foldl_append_toList, hinit, List.nil_append]
  refine lists_part? ?_ ?_ _
  · rintro ⟨qualifiers, content⟩ hs
    rcases content.splitName?_cases with ⟨-, hnone⟩ | ⟨hwords, -⟩
    · rw [hnone]
      rfl
    · simp [hwords] at hs
  · rintro ⟨qualifiers, content⟩ hs
    rcases content.splitName?_cases with ⟨hwords, -⟩ | ⟨-, name, description, hsome, hnamed⟩
    · simp [hwords] at hs
    · exact ⟨_, by rw [hsome]; rfl, hR qualifiers content name description hnamed⟩

variable {tag : Text} {qualifiers : List Text} {content : Outline}

/-- A parameter comes last, and one without a name is left out. -/
theorem parameters_takeRole (g : Gathering) :
    (g.takeRole tag qualifiers content .parameter).parameters = g.parameters ++
      (content.splitName?.map fun (name, description) =>
        ⟨name, Direction.ofQualifiers? qualifiers, description⟩).toList := by
  rw [takeRole]
  rcases content.splitName? with _ | ⟨name, description⟩
  · exact (List.append_nil _).symm
  · rfl

/-- The last deprecation counts, and one that says nothing has no message. -/
theorem deprecated_takeRole (g : Gathering) (content : Outline) :
    (g.takeRole tag qualifiers content .deprecated).deprecated =
      some ⟨true, if content = ⟨[], []⟩ then none else some content⟩ := by
  have hempty : content.isEmpty = true ↔ content = ⟨[], []⟩ := by
    obtain ⟨top, sub⟩ := content
    simp [Outline.isEmpty]
  simp only [takeRole, hempty]

theorem returnValues_takeRole (g : Gathering) :
    (g.takeRole tag qualifiers content .returnValue).returnValues = g.returnValues ++
      (content.splitName?.map fun (name, description) => ⟨name, description⟩).toList := by
  rw [takeRole]
  rcases content.splitName? with _ | ⟨name, description⟩
  · exact (List.append_nil _).symm
  · rfl

theorem throws_takeRole (g : Gathering) :
    (g.takeRole tag qualifiers content .throws).throws = g.throws ++
      (content.splitName?.map fun (name, description) => ⟨name, description⟩).toList := by
  rw [takeRole]
  rcases content.splitName? with _ | ⟨name, description⟩
  · exact (List.append_nil _).symm
  · rfl

end Gathering

/-- **Each part of a documentation is a projection.** It is what the elements say under the tags of
the part, in order, and nothing else has a say in it. -/
theorem Documentation.ofElements_isProjection (es : List Element) :
    (Documentation.ofElements es).IsProjection es where
  title := Gathering.eq_last (r := .title) (f := Gathering.title) (by decide) (fun _ => rfl) rfl
    (fun _ _ _ _ => rfl) es
  brief := by
    have hfold : (Gathering.ofElements es).brief = (underTags (Tag.named .brief) es).foldl
        (fun b s => some (Gathering.joinBrief b s.2)) none :=
      Gathering.ofElements_eq (by decide) (fun _ => rfl) (fun _ _ _ _ => rfl) es
    refine hfold.trans ?_
    show _ = Outline.joinAll? ((underTags (Tag.named .brief) es).map (·.2))
    rcases underTags (Tag.named .brief) es with _ | ⟨s, ss⟩
    · rfl
    · rw [List.map_cons, ← foldl_joinBrief, List.foldl_map]
      rfl
  parameters := Gathering.lists_named (r := .parameter) (by decide) (fun _ => rfl) rfl
    (fun g _ _ _ => g.parameters_takeRole)
    (fun qualifiers _ _ _ h => ⟨h, isDirection_ofQualifiers qualifiers⟩) es
  deprecated := Gathering.eq_last (r := .deprecated) (f := Gathering.deprecated) (by decide)
    (fun _ => rfl) rfl (fun g _ _ content => g.deprecated_takeRole content) es
  notes := Gathering.lists_contents (r := .note) (by decide) (fun _ => rfl) rfl
    (fun _ _ _ _ => rfl) es
  warnings := Gathering.lists_contents (r := .warning) (by decide) (fun _ => rfl) rfl
    (fun _ _ _ _ => rfl) es
  returns := Gathering.lists_contents (r := .returns) (by decide) (fun _ => rfl) rfl
    (fun _ _ _ _ => rfl) es
  returnValues := Gathering.lists_named (r := .returnValue) (by decide) (fun _ => rfl) rfl
    (fun g _ _ _ => g.returnValues_takeRole) (fun _ _ _ _ h => h) es
  throws := Gathering.lists_named (r := .throws) (by decide) (fun _ => rfl) rfl
    (fun g _ _ _ => g.throws_takeRole) (fun _ _ _ _ h => h) es
  since := Gathering.eq_last (r := .since) (f := Gathering.since) (by decide) (fun _ => rfl) rfl
    (fun _ _ _ _ => rfl) es

end DoxygenMarkdown

import DoxygenMarkdown.Proofs.Fences.Marks
import DoxygenMarkdown.Proofs.Sections.Parts
import DoxygenMarkdown.Proofs.Tag

/-!
# Paragraphs keep their lines

Paragraphs are joined, held back in the buffer, put into their part when the buffer is closed, and
left out if they hold nothing. None of this loses a line, makes one up or moves it: the lines of
each part are those of the contents that are routed to it, in order
(`Documentation.ofElements_lines`).

* Where a content goes depends on no more than the tags before it, up to the last separator
  (`Element.routeAfter`, `Element.routed?`).
* The lines of a gathering are those of its part and of the buffer, as far as that goes there
  (`Gathering.lines`). Each element adds the lines of what it routes (`Gathering.lines_take`), and
  closing the buffer changes nothing (`Gathering.lines_closeBuffer`).
-/

namespace DoxygenMarkdown

/-! ## Routes -/

/-- The part that an open buffer goes to after an element, given the one that it went to before. -/
def Element.routeAfter (route : Option Destination) : Element → Option Destination
  | separator => none
  | tagged tag _ _ =>
    if tag = "details".toList then some .description
    else if tag = "todo".toList then some .todos
    else route
  | _ => route

/-- The content that an element has for the paragraphs, with the part that it goes to. Lines that
hold nothing and what is left of the ends of a comment have none. -/
def Element.routed? (route : Option Destination) : Element → Option (Destination × Outline)
  | tagged tag _ content =>
    if tag = "details".toList then some (.description, content)
    else if tag = "todo".toList then some (.todos, content)
    else if tag = "code".toList then some (route.getD .description, content)
    else none
  | plain content =>
    if content.isEmpty || isDecoration content then none
    else some (route.getD .description, content)
  | _ => none

/-- The contents that some elements have for the paragraphs, with the parts that they go to. -/
def routes (route : Option Destination) : List Element → List (Destination × Outline)
  | [] => []
  | e :: es => (e.routed? route).toList ++ routes (e.routeAfter route) es

/-- The contents that go to some part. -/
def contentsTo (d : Destination) (cs : List (Destination × Outline)) : List Outline :=
  (cs.filter (·.1 = d)).map (·.2)

/-- The lines of some outlines that are not empty: for each outline those of its text, and then
those of its items. -/
def Outline.saidLines (os : List Outline) : List Text :=
  (Outline.listTextLines os).filter (· ≠ [])

/-- The paragraphs of a documentation that are in some part. -/
def Documentation.paragraphs (d : Documentation) : Destination → List Outline
  | .description => d.description.getD []
  | .todos => d.todos.getD []

/-! ## Lines -/

namespace Outline

theorem saidLines_nil : saidLines [] = [] := rfl

theorem saidLines_append (os ps : List Outline) :
    saidLines (os ++ ps) = saidLines os ++ saidLines ps := by
  rw [saidLines, listTextLines_append, List.filter_append]
  rfl

theorem saidLines_singleton (o : Outline) :
    saidLines [o] = o.top.lines.filter (· ≠ []) ++ saidLines o.sub := by
  rw [saidLines, listTextLines, textLines_eq, listTextLines, List.append_nil, List.filter_append]
  rfl

/-- Outlines without any text have no lines that say something. -/
theorem saidLines_filter_isEmpty (os : List Outline) :
    saidLines (os.filter (!·.isEmpty)) = saidLines os := by
  induction os with
  | nil => rfl
  | cons o os ih =>
    rw [← List.singleton_append, saidLines_append, List.filter_append, saidLines_append, ih]
    cases ho : o.isEmpty with
    | false => rw [List.filter_cons_of_pos (by simp [ho]), List.filter_nil]
    | true =>
      obtain ⟨htop, hsub⟩ := Bool.and_eq_true_iff.1 ho
      rw [List.filter_cons_of_neg (by simp [ho]), saidLines_singleton, List.isEmpty_iff.1 htop,
        List.isEmpty_iff.1 hsub]
      rfl

/-- A line that is put below a text stays a line of its own. -/
theorem saidLines_startLine {o : Outline} (ho : o.sub = []) (content : Outline) :
    saidLines [{ o.startLine content.top with sub := content.sub }] =
      saidLines [o] ++ saidLines [content] := by
  have hlines : (o.startLine content.top).top.lines.filter (· ≠ []) =
      o.top.lines.filter (· ≠ []) ++ content.top.lines.filter (· ≠ []) := by
    unfold startLine
    split
    · next hempty =>
      rw [List.isEmpty_iff.1 hempty]
      rfl
    · rw [addLine, Text.lines_append_break, List.filter_append]
  rw [saidLines_singleton, saidLines_singleton, saidLines_singleton, ho, hlines]
  simp [saidLines, listTextLines]

/-- Whether a content is joined to the last paragraph or not makes no difference to the lines. -/
theorem saidLines_joinParagraph (os : List Outline) (content : Outline) (join : Bool) :
    saidLines (joinParagraph os content join) = saidLines os ++ saidLines [content] := by
  unfold joinParagraph
  split
  · next last hlast =>
    split
    · next hjoin =>
      have hsub : last.sub = [] := List.isEmpty_iff.1 (Bool.and_eq_true_iff.1 hjoin).2
      rw [saidLines_append, saidLines_startLine hsub, ← List.append_assoc, ← saidLines_append,
        List.dropLast_append_getLast? last hlast]
    · rw [saidLines_append]
  · rw [saidLines_append]

end Outline

/-! ## What goes into the paragraphs -/

namespace Gathering

section

variable {g : Gathering} {content : Outline}

theorem takeLine_of_none (hsilent : ¬ (content.isEmpty || isDecoration content) = true)
    (hb : g.buffer = none) :
    g.takeLine content =
      { g with
        description := joinParagraph g.description content g.joinable
        joinable := true } := by
  rw [takeLine, if_neg hsilent, hb]

theorem takeLine_of_some {b : Buffer} (hsilent : ¬ (content.isEmpty || isDecoration content) = true)
    (hb : g.buffer = some b) :
    g.takeLine content =
      { g with
        buffer := some { b with paragraphs := joinParagraph b.paragraphs content true } } := by
  rw [takeLine, if_neg hsilent, hb]

theorem takeCode_of_none (hb : g.buffer = none) :
    g.takeCode content = { g with description := g.description ++ [content] } := by
  rw [takeCode, hb]

theorem takeCode_of_some {b : Buffer} (hb : g.buffer = some b) :
    g.takeCode content =
      { g with buffer := some { b with paragraphs := b.paragraphs ++ [content] } } := by
  rw [takeCode, hb]

end

/-! ## The lines of a gathering -/

/-- The part that the open buffer goes to. -/
def route (g : Gathering) : Option Destination := g.buffer.map (·.destination)

theorem route_of_none {g : Gathering} (hb : g.buffer = none) : g.route = none := by
  rw [route, hb]
  rfl

theorem route_of_some {g : Gathering} {b : Buffer} (hb : g.buffer = some b) :
    g.route = some b.destination := by
  rw [route, hb]
  rfl

/-- The paragraphs that are in some part. -/
def paragraphs (g : Gathering) : Destination → List Outline
  | .description => g.description
  | .todos => g.todos

/-- The paragraphs of the buffer, if it goes to some part. -/
def buffered (g : Gathering) (d : Destination) : List Outline :=
  match g.buffer with
  | some b => if b.destination = d then b.paragraphs else []
  | none => []

/-- The lines that say something, of the paragraphs that are in some part or go there. -/
def lines (g : Gathering) (d : Destination) : List Text :=
  Outline.saidLines (g.paragraphs d ++ g.buffered d)

variable {d : Destination}

theorem paragraphs_setBuffer (g : Gathering) (buffer : Option Buffer) (joinable : Bool)
    (d : Destination) : Gathering.paragraphs { g with buffer, joinable } d = g.paragraphs d := by
  cases d <;> rfl

theorem paragraphs_closeBuffer (g : Gathering) (d : Destination) :
    g.closeBuffer.paragraphs d = g.paragraphs d ++ (g.buffered d).filter (!·.isEmpty) := by
  rcases hb : g.buffer with _ | ⟨_ | _, bs⟩ <;> cases d <;>
    simp [closeBuffer, buffered, paragraphs, hb]

theorem lines_closeBuffer (g : Gathering) (d : Destination) :
    g.closeBuffer.lines d = g.lines d := by
  have hbuffered : g.closeBuffer.buffered d = [] := by rw [buffered, buffer_closeBuffer]
  rw [lines, hbuffered, List.append_nil, paragraphs_closeBuffer, Outline.saidLines_append,
    Outline.saidLines_filter_isEmpty, ← Outline.saidLines_append]
  rfl

/-- What is put into the buffer, below the lines there, goes to the part of the buffer. -/
theorem lines_setBuffer {g : Gathering} {b : Buffer} (hb : g.buffer = some b) {bs : List Outline}
    {content : Outline}
    (hbs : Outline.saidLines bs = Outline.saidLines b.paragraphs ++ Outline.saidLines [content]) :
    Gathering.lines { g with buffer := some { b with paragraphs := bs } } d =
      g.lines d ++ Outline.saidLines (contentsTo d [(b.destination, content)]) := by
  rw [lines, lines, paragraphs_setBuffer g _ g.joinable, Outline.saidLines_append,
    Outline.saidLines_append, buffered, buffered, hb]
  by_cases hd : b.destination = d
  · simp [contentsTo, hd, hbs]
  · simp [contentsTo, hd, Outline.saidLines_nil]

/-- What is put into the description, below the lines there, while there is no buffer. -/
theorem lines_setDescription {g : Gathering} (hb : g.buffer = none) {os : List Outline}
    {content : Outline} (joinable : Bool)
    (hos : Outline.saidLines os = Outline.saidLines g.description ++ Outline.saidLines [content]) :
    Gathering.lines { g with description := os, joinable } d =
      g.lines d ++ Outline.saidLines (contentsTo d [(.description, content)]) := by
  cases d with
  | description => simp [lines, buffered, paragraphs, hb, hos, contentsTo]
  | todos =>
    rw [lines, lines, buffered, buffered, hb]
    exact (List.append_nil _).symm

theorem lines_takeLine {g : Gathering} {content : Outline} :
    (g.takeLine content).lines d = g.lines d ++ Outline.saidLines
      (contentsTo d ((Element.plain content).routed? g.route).toList) := by
  rw [Element.routed?]
  by_cases hsilent : (content.isEmpty || isDecoration content) = true
  · rw [takeLine, if_pos hsilent, if_pos hsilent]
    exact (List.append_nil _).symm
  · rw [if_neg hsilent, Option.toList_some]
    rcases hb : g.buffer with _ | b
    · rw [takeLine_of_none hsilent hb, route_of_none hb]
      exact lines_setDescription hb true (Outline.saidLines_joinParagraph _ _ _)
    · rw [takeLine_of_some hsilent hb, route_of_some hb]
      exact lines_setBuffer hb (Outline.saidLines_joinParagraph _ _ _)

theorem lines_takeCode {g : Gathering} {content : Outline} :
    (g.takeCode content).lines d = g.lines d ++ Outline.saidLines
      (contentsTo d [(g.route.getD .description, content)]) := by
  rcases hb : g.buffer with _ | b
  · rw [takeCode_of_none hb, route_of_none hb]
    exact lines_setDescription hb g.joinable (Outline.saidLines_append _ _)
  · rw [takeCode_of_some hb, route_of_some hb]
    exact lines_setBuffer hb (Outline.saidLines_append _ _)

theorem paragraphs_openBuffer (g : Gathering) (content : Outline) (d' d : Destination) :
    (g.openBuffer d' content).paragraphs d = g.closeBuffer.paragraphs d := by
  cases d <;> rfl

theorem lines_openBuffer {g : Gathering} {content : Outline} (d' : Destination) :
    (g.openBuffer d' content).lines d = g.lines d ++ Outline.saidLines
      (contentsTo d [(d', content)]) := by
  have hbuffered : (g.openBuffer d' content).buffered d = contentsTo d [(d', content)] := by
    by_cases hd : d' = d <;> simp [buffered, openBuffer, contentsTo, hd]
  have hclosed : g.closeBuffer.buffered d = [] := by rw [buffered, buffer_closeBuffer]
  rw [lines, paragraphs_openBuffer, hbuffered, Outline.saidLines_append, ← lines_closeBuffer g,
    lines, hclosed, List.append_nil]

/-- Tags with other roles have nothing to do with the paragraphs. -/
theorem paragraphs_takeRole {r : Role} (hdetails : r ≠ .details) (htodo : r ≠ .todo)
    (hcode : r ≠ .code) (g : Gathering) (tag : Text) (qualifiers : List Text) (content : Outline) :
    (g.takeRole tag qualifiers content r).buffer = g.buffer ∧
      ∀ d, (g.takeRole tag qualifiers content r).paragraphs d = g.paragraphs d := by
  cases r with
  | details => exact absurd rfl hdetails
  | todo => exact absurd rfl htodo
  | code => exact absurd rfl hcode
  | parameter | returnValue | throws =>
    simp only [takeRole]
    rcases content.splitName? with _ | ⟨name, description⟩ <;>
      exact ⟨rfl, fun d => by cases d <;> rfl⟩
  | _ => exact ⟨rfl, fun d => by cases d <;> rfl⟩

/-- A gathering with the same paragraphs has the same lines, and they go on the same way. -/
theorem lines_congr {g h : Gathering} (hb : g.buffer = h.buffer)
    (hp : ∀ d, g.paragraphs d = h.paragraphs d) : g.lines d = h.lines d := by
  rw [lines, lines, hp, buffered, buffered, hb]

/-! ## One element -/

theorem lines_setJoinable (g : Gathering) (joinable : Bool) :
    Gathering.lines { g with joinable } d = g.lines d := by
  cases d <;> rfl

/-- What a tag does to the paragraphs: two tags open the buffer, code is put where the paragraphs
go, and the others leave them alone. -/
theorem take_tagged_cases (g : Gathering) (tag : Text) (qualifiers : List Text)
    (content : Outline) :
    (tag = "details".toList ∧ g.take (.tagged tag qualifiers content) =
        Gathering.openBuffer { g with joinable := false } .description content) ∨
      (tag = "todo".toList ∧ g.take (.tagged tag qualifiers content) =
        Gathering.openBuffer { g with joinable := false } .todos content) ∨
      (tag = "code".toList ∧ g.take (.tagged tag qualifiers content) =
        Gathering.takeCode { g with joinable := false } content) ∨
      (tag ≠ "details".toList ∧ tag ≠ "todo".toList ∧ tag ≠ "code".toList ∧
        (g.take (.tagged tag qualifiers content)).buffer = g.buffer ∧
        ∀ d, (g.take (.tagged tag qualifiers content)).paragraphs d = g.paragraphs d) := by
  by_cases hdetails : tag = "details".toList
  · subst hdetails
    exact .inl ⟨rfl, rfl⟩
  by_cases htodo : tag = "todo".toList
  · subst htodo
    exact .inr (.inl ⟨rfl, rfl⟩)
  by_cases hcode : tag = "code".toList
  · subst hcode
    exact .inr (.inr (.inl ⟨rfl, rfl⟩))
  refine .inr (.inr (.inr ⟨hdetails, htodo, hcode, ?_⟩))
  rcases hrole : Tag.role? tag with _ | r
  · rw [take, hrole]
    exact ⟨rfl, fun d => by cases d <;> rfl⟩
  · have hne : ∀ {r' : Role} {name : String}, Tag.named r' = [name] → tag ≠ name.toList →
        r ≠ r' := by
      rintro r' name hnamed htag rfl
      have hmem := Tag.mem_named_iff.2 hrole
      rw [hnamed] at hmem
      exact htag (List.mem_singleton.1 hmem)
    obtain ⟨hbuffer, hparagraphs⟩ := paragraphs_takeRole (hne rfl hdetails) (hne rfl htodo)
      (hne rfl hcode) { g with joinable := false } tag qualifiers content
    rw [take_tagged hrole]
    exact ⟨hbuffer, fun d => (hparagraphs d).trans (by cases d <;> rfl)⟩

theorem route_takeLine (g : Gathering) (content : Outline) :
    (g.takeLine content).route = g.route := by
  by_cases hsilent : (content.isEmpty || isDecoration content) = true
  · rw [takeLine, if_pos hsilent]
  rcases hb : g.buffer with _ | b
  · rw [takeLine_of_none hsilent hb]
    rfl
  · rw [takeLine_of_some hsilent hb, route_of_some hb]
    rfl

theorem route_takeCode (g : Gathering) (content : Outline) :
    (g.takeCode content).route = g.route := by
  rcases hb : g.buffer with _ | b
  · rw [takeCode_of_none hb]
    rfl
  · rw [takeCode_of_some hb, route_of_some hb]
    rfl

/-- Where the paragraphs go after an element. -/
theorem route_take (g : Gathering) (e : Element) : (g.take e).route = e.routeAfter g.route := by
  cases e with
  | groupOpen | groupClose | bareMarker => rfl
  | separator =>
    rw [take, takeSeparator, route]
    exact congrArg _ (buffer_closeBuffer g)
  | plain content => exact route_takeLine g content
  | tagged tag qualifiers content =>
    rw [Element.routeAfter]
    rcases take_tagged_cases g tag qualifiers content with
      ⟨htag, htake⟩ | ⟨htag, htake⟩ | ⟨htag, htake⟩ | ⟨hdetails, htodo, -, hbuffer, -⟩
    · rw [htake, if_pos htag]
      rfl
    · rw [htake, htag]
      rfl
    · rw [htake, route_takeCode, htag]
      rfl
    · rw [if_neg hdetails, if_neg htodo, route, hbuffer]
      rfl

/-- Each element adds the lines of what it routes to a part, and no others. -/
theorem lines_take (g : Gathering) (e : Element) (d : Destination) :
    (g.take e).lines d = g.lines d ++ Outline.saidLines
      (contentsTo d (e.routed? g.route).toList) := by
  cases e with
  | groupOpen | groupClose | bareMarker => exact (List.append_nil _).symm
  | separator =>
    rw [take, takeSeparator, lines_setJoinable, lines_closeBuffer]
    exact (List.append_nil _).symm
  | plain content => exact lines_takeLine
  | tagged tag qualifiers content =>
    rw [Element.routed?]
    rcases take_tagged_cases g tag qualifiers content with
      ⟨htag, htake⟩ | ⟨htag, htake⟩ | ⟨htag, htake⟩ |
        ⟨hdetails, htodo, hcode, hbuffer, hparagraphs⟩
    · rw [htake, lines_openBuffer, lines_setJoinable, if_pos htag]
      rfl
    · rw [htake, lines_openBuffer, lines_setJoinable, htag]
      rfl
    · rw [htake, lines_takeCode, lines_setJoinable, htag]
      rfl
    · rw [if_neg hdetails, if_neg htodo, if_neg hcode, lines_congr hbuffer hparagraphs]
      exact (List.append_nil _).symm

/-! ## All elements -/

theorem lines_foldl_take (es : List Element) (g : Gathering) (d : Destination) :
    (es.foldl take g).lines d =
      g.lines d ++ Outline.saidLines (contentsTo d (routes g.route es)) := by
  induction es generalizing g with
  | nil => exact (List.append_nil _).symm
  | cons e es ih =>
    have hroutes : contentsTo d (routes g.route (e :: es)) =
        contentsTo d (e.routed? g.route).toList ++
          contentsTo d (routes (e.routeAfter g.route) es) := by
      rw [routes, contentsTo, List.filter_append, List.map_append]
      rfl
    rw [List.foldl_cons, ih, lines_take, route_take, List.append_assoc, hroutes,
      Outline.saidLines_append]

end Gathering

theorem Documentation.paragraphs_ofElements (es : List Element) (d : Destination) :
    (Documentation.ofElements es).paragraphs d = (Gathering.ofElements es).paragraphs d := by
  cases d
  · exact Gathering.getD_part? _
  · exact Gathering.getD_part? _

/-- **Paragraphs keep their lines.** The lines of each part are those of the contents that are
routed to it, in order. -/
theorem Documentation.ofElements_lines (es : List Element) (d : Destination) :
    Outline.saidLines ((Documentation.ofElements es).paragraphs d) =
      Outline.saidLines (contentsTo d (routes none es)) := by
  have hbuffered : (Gathering.ofElements es).buffered d = [] := by
    rw [Gathering.buffered, Gathering.ofElements, Gathering.buffer_closeBuffer]
  have hlines : (Gathering.ofElements es).lines d =
      Outline.saidLines (contentsTo d (routes none es)) := by
    rw [Gathering.ofElements, Gathering.lines_closeBuffer, Gathering.lines_foldl_take]
    cases d <;> rfl
  rw [Documentation.paragraphs_ofElements, ← hlines, Gathering.lines, hbuffered, List.append_nil]

/-- What is left of the end of a comment is left out with blanks around it as well. So the lines of
the description are not those of all texts but the three bare ones. -/
theorem Documentation.ofElements_drops_indented_star :
    " *".toList ∉ ["*".toList, "**".toList, "*/".toList] ∧
      (Outline.leaf " *".toList).isEmpty = false ∧
      Outline.saidLines
          ((Documentation.ofElements [.plain (.leaf " *".toList)]).paragraphs .description) ≠
        Outline.saidLines [.leaf " *".toList] :=
  ⟨by decide, by decide, by decide⟩

end DoxygenMarkdown

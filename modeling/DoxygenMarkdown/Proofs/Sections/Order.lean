import DoxygenMarkdown.Proofs.Sections.Group
import DoxygenMarkdown.Rendering

/-!
# The order of sections does not matter

A comment that is laid out in groups may have them in any order, as long as the groups of one
section keep theirs: its Markdown is the same (`text_renderComment_reorder`). Blank lines around the
groups make no difference either.

This rests on two independences. A group is read as one element wherever it stands, so the elements
are reordered as the groups are. And an element goes to the part of its section, and to that part
only, so the order across sections is forgotten when the parts are gathered.

What is reported of a comment is not forgotten: the notices come in the order of the groups.
-/

namespace DoxygenMarkdown

namespace Comment

/-- The same groups, in another order that is the same within each section. -/
def SameSections (gs gs' : List Group) : Prop :=
  ∀ r : Role, gs.filter (·.role = r) = gs'.filter (·.role = r)

variable {gs : List Group} {es : List Element}

/-- Among the elements of groups, each section has the elements of its own groups. -/
theorem filter_role?_of_groups (h : es.filter (· ≠ .separator) = gs.map Group.element) (r : Role) :
    es.filter (·.role? = some r) = (gs.filter (·.role = r)).map Group.element := by
  have hseparator : ∀ e : Element,
      decide (e.role? = some r) = (decide (e.role? = some r) && decide (e ≠ .separator)) := by
    intro e
    by_cases he : e = .separator
    · subst he
      rfl
    · simp [he]
  have hgroup : ∀ g : Group, decide (g.element.role? = some r) = decide (g.role = r) := by
    intro g
    simp [g.role?_element]
  calc es.filter (·.role? = some r)
      = es.filter fun e => decide (e.role? = some r) && decide (e ≠ .separator) :=
        List.filter_congr fun e _ => hseparator e
    _ = (es.filter (· ≠ .separator)).filter (·.role? = some r) := List.filter_filter.symm
    _ = (gs.map Group.element).filter (·.role? = some r) := by rw [h]
    _ = (gs.filter (·.role = r)).map Group.element := by
        rw [List.filter_map]
        exact congrArg _ (List.filter_congr fun g _ => hgroup g)

theorem isSorted_of_groups (h : es.filter (· ≠ .separator) = gs.map Group.element) :
    ∀ e ∈ es, e.IsSorted := by
  intro e he
  by_cases hs : e = .separator
  · subst hs
    exact trivial
  · have hmem : e ∈ gs.map Group.element := h ▸ List.mem_filter.2 ⟨he, decide_eq_true hs⟩
    obtain ⟨g, -, rfl⟩ := List.mem_map.1 hmem
    exact g.isSorted_element

end Comment

open Comment

/-- **The order of sections does not matter.** Two comments that are laid out in the same groups,
in any order that is the same within each section and with any blank lines around them, can both be
read, and are written as the same Markdown. -/
theorem text_renderComment_reorder (level : Int) {t t' : Text} {gs gs' : List Group}
    (ht : IsLaidOut gs (sourceLines t)) (ht' : IsLaidOut gs' (sourceLines t'))
    (h : SameSections gs gs') :
    ∃ r r' : Rendering, renderComment level t = .ok r ∧ renderComment level t' = .ok r' ∧
      r.text = r'.text := by
  obtain ⟨es, hes, hgroups⟩ := elements_of_isLaidOut ht
  obtain ⟨es', hes', hgroups'⟩ := elements_of_isLaidOut ht'
  refine ⟨_, _, renderComment_of_elements hes level, renderComment_of_elements hes' level, ?_⟩
  have hdoc : Documentation.ofElements es = Documentation.ofElements es' := by
    apply Gathering.ofElements_congr (isSorted_of_groups hgroups) (isSorted_of_groups hgroups')
    intro r
    rw [filter_role?_of_groups hgroups, filter_role?_of_groups hgroups', h]
  simp only [hdoc]

/-- Details that are still growing when a note comes and a thing to do takes the buffer, and the
same in another order with blank lines around. -/
theorem text_renderComment_reorder_three_groups :
    ∃ r r' : Rendering,
      renderComment 2 "@details A\n  - b\n@Note N\n@todo T".toList = .ok r ∧
        renderComment 2 "@todo T\n*\n@Note N\n\n@details A\n  - b\n".toList = .ok r' ∧
        r.text = r'.text := by
  let details : Group :=
    ⟨"@details A".toList, ["  - b".toList], "details".toList, [], "A".toList, .details, rfl,
      by decide, by decide, by decide, rfl, by decide⟩
  let note : Group :=
    ⟨"@Note N".toList, [], "note".toList, [], "N".toList, .note, rfl, by decide, by decide,
      by decide, rfl, by decide⟩
  let todo : Group :=
    ⟨"@todo T".toList, [], "todo".toList, [], "T".toList, .todo, rfl, by decide, by decide,
      by decide, rfl, by decide⟩
  have before : IsLaidOut [details, note, todo]
      (sourceLines "@details A\n  - b\n@Note N\n@todo T".toList) := by
    have hlines : sourceLines "@details A\n  - b\n@Note N\n@todo T".toList =
        ["@details A".toList, "  - b".toList, "@Note N".toList, "@todo T".toList] := by decide
    rw [hlines]
    exact .group details (.group note (.group todo .nil))
  have after : IsLaidOut [todo, note, details]
      (sourceLines "@todo T\n*\n@Note N\n\n@details A\n  - b\n".toList) := by
    have hlines : sourceLines "@todo T\n*\n@Note N\n\n@details A\n  - b\n".toList =
        ["@todo T".toList, ['*'], "@Note N".toList, [], "@details A".toList, "  - b".toList,
          []] := by decide
    rw [hlines]
    exact .group todo (.blank rfl (.group note (.blank rfl (.group details (.blank rfl .nil)))))
  refine text_renderComment_reorder 2 before after fun r => ?_
  cases r <;> simp [details, note, todo]

end DoxygenMarkdown

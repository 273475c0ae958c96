import DoxygenMarkdown.Proofs.Fences.Outline
import Mathlib.Data.List.Induction

/-!
# Outlines in order

The nodes of an outline have an order: a node comes before its items, and an item, with all that is
below it, before the next one. In this order nodes are numbered.

* A node is an item of another one, which is its *parent* (`Outline.parents`). To find it, it is
  enough to know the depths of the nodes: it is the last node before that is less deep
  (`Outline.listParents_eq`).
* An item that is added on the edge is the last node in this order, whatever its depth
  (`Outline.listTexts_modifyEdge_addItem`, `Outline.listDepths_modifyEdge_addItem`).

A node on the edge, with the nodes around it, is an outline within others (`Outline.within`). A
change at a depth is a change of such a node, and of no other (`Outline.exists_liesAt`).
-/

namespace DoxygenMarkdown

/-! ## Looking back -/

/-- The number of the last one of some values that is smaller than another value. -/
def lastBelow? (xs : List Nat) (x : Nat) : Option Nat :=
  ((xs.zipIdx.filter (·.1 < x)).getLast?).map (·.2)

/-- For each value, the number of the last one before it that is smaller. Some values come before
all of them. -/
def parentsAfter (before : List Nat) : List Nat → List (Option Nat)
  | [] => []
  | x :: xs => lastBelow? before x :: parentsAfter (before ++ [x]) xs

variable {xs : List Nat} {x y : Nat}

theorem lastBelow?_nil (x : Nat) : lastBelow? [] x = none := rfl

theorem lastBelow?_concat (xs : List Nat) (y x : Nat) :
    lastBelow? (xs ++ [y]) x = if y < x then some xs.length else lastBelow? xs x := by
  rw [lastBelow?, List.zipIdx_append, List.filter_append, Nat.zero_add, List.zipIdx_singleton]
  split
  · next h => rw [List.filter_cons_of_pos (by simpa using h), List.filter_nil, List.getLast?_concat,
      Option.map_some]
  · next h => rw [List.filter_cons_of_neg (by simpa using h), List.filter_nil, List.append_nil,
      lastBelow?]

theorem getElem?_concat_eq_some_iff {α : Type} (xs : List α) (y : α) {i : Nat} {z : α} :
    (xs ++ [y])[i]? = some z ↔ xs[i]? = some z ∨ i = xs.length ∧ y = z := by
  rcases Nat.lt_trichotomy i xs.length with hi | rfl | hi
  · rw [List.getElem?_append_left hi]
    exact ⟨.inl, fun h => h.resolve_right fun h => absurd h.1 (Nat.ne_of_lt hi)⟩
  · simp
  · rw [List.getElem?_eq_none (by simp; omega), List.getElem?_eq_none (by omega)]
    simp only [reduceCtorEq, false_or, false_iff]
    omega

/-- What is found is smaller, and nothing behind it is. -/
theorem lastBelow?_eq_some_iff {j : Nat} :
    lastBelow? xs x = some j ↔
      (∃ y, xs[j]? = some y ∧ y < x) ∧ ∀ i y, j < i → xs[i]? = some y → x ≤ y := by
  induction xs using List.reverseRecOn with
  | nil => simp [lastBelow?_nil]
  | append_singleton xs y ih =>
    have hlength : ∀ {i z}, xs[i]? = some z → i < xs.length := fun h =>
      (List.getElem?_eq_some_iff.1 h).1
    simp only [lastBelow?_concat, getElem?_concat_eq_some_iff]
    by_cases hy : y < x
    · rw [if_pos hy, Option.some.injEq]
      constructor
      · rintro rfl
        refine ⟨⟨y, .inr ⟨rfl, rfl⟩, hy⟩, fun i z hi hz => ?_⟩
        rcases hz with hz | ⟨rfl, -⟩
        · exact absurd (hlength hz) (by omega)
        · exact absurd hi (Nat.lt_irrefl _)
      · rintro ⟨⟨z, hz | ⟨rfl, -⟩, -⟩, hbehind⟩
        · exact absurd (hbehind xs.length y (hlength hz) (.inr ⟨rfl, rfl⟩)) (by omega)
        · rfl
    · rw [if_neg hy, ih]
      constructor
      · rintro ⟨⟨z, hz, hlt⟩, hbehind⟩
        refine ⟨⟨z, .inl hz, hlt⟩, fun i w hi hw => ?_⟩
        rcases hw with hw | ⟨-, rfl⟩
        · exact hbehind i w hi hw
        · exact Nat.le_of_not_lt hy
      · rintro ⟨⟨z, hz | ⟨-, rfl⟩, hlt⟩, hbehind⟩
        · exact ⟨⟨z, hz, hlt⟩, fun i w hi hw => hbehind i w hi (.inl hw)⟩
        · exact absurd hlt hy

theorem parentsAfter_append (before xs ys : List Nat) :
    parentsAfter before (xs ++ ys) = parentsAfter before xs ++ parentsAfter (before ++ xs) ys := by
  induction xs generalizing before with
  | nil => rw [List.append_nil]; rfl
  | cons x xs ih => rw [List.cons_append, parentsAfter, ih, parentsAfter, List.append_assoc]; rfl

/-- Values that are not smaller are passed by. -/
theorem lastBelow?_append {ys : List Nat} (h : ∀ y ∈ ys, x ≤ y) (xs : List Nat) :
    lastBelow? (xs ++ ys) x = lastBelow? xs x := by
  induction ys using List.reverseRecOn with
  | nil => rw [List.append_nil]
  | append_singleton ys y ih =>
    rw [← List.append_assoc, lastBelow?_concat, if_neg (Nat.not_lt.2 (h y List.mem_concat_self))]
    exact ih fun z hz => h z (List.mem_append_left _ hz)

/-! ## The nodes of an outline -/

namespace Outline

mutual

/-- The texts of an outline, in order. -/
def texts : Outline → List Text
  | ⟨top, sub⟩ => top :: listTexts sub

/-- The texts of some outlines, in order. -/
def listTexts : List Outline → List Text
  | [] => []
  | o :: os => texts o ++ listTexts os

end

mutual

/-- The depths of the nodes of an outline, in order. The first one is given. -/
def depths (depth : Nat) : Outline → List Nat
  | ⟨_, sub⟩ => depth :: listDepths (depth + 1) sub

/-- The depths of the nodes of some outlines, in order. -/
def listDepths (depth : Nat) : List Outline → List Nat
  | [] => []
  | o :: os => depths depth o ++ listDepths depth os

end

mutual

/-- For each node of an outline, in order, the number of its parent. The first node has the number
`n`, and its parent is given. -/
def parents (parent : Option Nat) (n : Nat) : Outline → List (Option Nat)
  | ⟨_, sub⟩ => parent :: listParents (some n) (n + 1) sub

/-- For each node of some outlines, in order, the number of its parent. -/
def listParents (parent : Option Nat) (n : Nat) : List Outline → List (Option Nat)
  | [] => []
  | o :: os => parents parent n o ++ listParents parent (n + (texts o).length) os

end

theorem listTexts_append (os ps : List Outline) :
    listTexts (os ++ ps) = listTexts os ++ listTexts ps := by
  induction os with
  | nil => rfl
  | cons o os ih => rw [List.cons_append, listTexts, ih, listTexts, List.append_assoc]

theorem listDepths_append (depth : Nat) (os ps : List Outline) :
    listDepths depth (os ++ ps) = listDepths depth os ++ listDepths depth ps := by
  induction os with
  | nil => rfl
  | cons o os ih => rw [List.cons_append, listDepths, ih, listDepths, List.append_assoc]

theorem listTexts_concat (os : List Outline) (o : Outline) :
    listTexts (os ++ [o]) = listTexts os ++ texts o := by
  rw [listTexts_append, listTexts, listTexts, List.append_nil]

theorem listDepths_concat (depth : Nat) (os : List Outline) (o : Outline) :
    listDepths depth (os ++ [o]) = listDepths depth os ++ depths depth o := by
  rw [listDepths_append, listDepths, listDepths, List.append_nil]

theorem depths_eq (depth : Nat) (o : Outline) :
    depths depth o = depth :: listDepths (depth + 1) o.sub := by
  cases o
  rw [depths]

theorem texts_eq (o : Outline) : texts o = o.top :: listTexts o.sub := by
  cases o
  rw [texts]

mutual

theorem length_depths (depth : Nat) : (o : Outline) → (depths depth o).length = (texts o).length
  | ⟨top, sub⟩ => by
    rw [depths, texts, List.length_cons, List.length_cons, length_listDepths (depth + 1) sub]

theorem length_listDepths (depth : Nat) :
    (os : List Outline) → (listDepths depth os).length = (listTexts os).length
  | [] => rfl
  | o :: os => by
    rw [listDepths, listTexts, List.length_append, List.length_append, length_depths depth o,
      length_listDepths depth os]

end

mutual

/-- No node is less deep than the first one. -/
theorem le_of_mem_depths (depth : Nat) : (o : Outline) → ∀ d ∈ depths depth o, depth ≤ d
  | ⟨_, sub⟩ => by
    rw [depths]
    exact List.forall_mem_cons.2 ⟨Nat.le_refl depth, fun d hd =>
      Nat.le_of_succ_le (le_of_mem_listDepths (depth + 1) sub d hd)⟩

theorem le_of_mem_listDepths (depth : Nat) :
    (os : List Outline) → ∀ d ∈ listDepths depth os, depth ≤ d
  | [] => fun _ hd => absurd hd List.not_mem_nil
  | o :: os => by
    rw [listDepths]
    exact List.forall_mem_append.2 ⟨le_of_mem_depths depth o, le_of_mem_listDepths depth os⟩

end

mutual

/-- The parent of a node is the last node before it that is less deep. -/
theorem parents_eq (depth : Nat) (before : List Nat) : (o : Outline) →
    parents (lastBelow? before depth) before.length o = parentsAfter before (depths depth o)
  | ⟨_, sub⟩ => by
    have hitems := listParents_eq (depth + 1) (before ++ [depth]) sub
    rw [lastBelow?_concat, if_pos (Nat.lt_succ_self depth), List.length_append] at hitems
    rw [parents, depths, parentsAfter, ← hitems]
    rfl

/-- **The depths of nodes tell their parents.** Some nodes come before all of these. -/
theorem listParents_eq (depth : Nat) (before : List Nat) : (os : List Outline) →
    listParents (lastBelow? before depth) before.length os =
      parentsAfter before (listDepths depth os)
  | [] => rfl
  | o :: os => by
    have hrest := listParents_eq depth (before ++ depths depth o) os
    rw [lastBelow?_append (le_of_mem_depths depth o), List.length_append, length_depths] at hrest
    rw [listParents, listDepths, parentsAfter_append, parents_eq depth before o, hrest]

end

/-! ## Nodes on the edge -/

/-- Add items as the last ones. -/
def addItems (ps : List Outline) (o : Outline) : Outline := { o with sub := o.sub ++ ps }

theorem addItems_nil (o : Outline) : o.addItems [] = o := by
  cases o
  simp only [addItems, List.append_nil]

theorem addItems_leaf (o : Outline) : (leaf o.top).addItems o.sub = o := by
  cases o
  rfl

theorem addItems_addItems (ps qs : List Outline) (o : Outline) :
    (o.addItems ps).addItems qs = o.addItems (ps ++ qs) := by
  simp only [addItems, List.append_assoc]

/-- An outline as the last item of some nodes, the outermost one first. Of each node the items
before are given. -/
def within (nodes : List Outline) (o : Outline) : Outline :=
  nodes.foldr (fun node last => node.addItems [last]) o

theorem within_concat (nodes : List Outline) (node o : Outline) :
    within (nodes ++ [node]) o = within nodes (node.addItems [o]) := by
  rw [within, within, List.foldr_append]
  rfl

/-- A change at the depth of an outline that is the last item is a change of that outline. -/
theorem modifyEdge_within (f : Outline → Outline) (nodes : List Outline) (o : Outline) :
    modifyEdge f nodes.length (within nodes o) = within nodes (f o) := by
  induction nodes with
  | nil => rfl
  | cons node nodes ih =>
    have hlast : (within (node :: nodes) o).sub.getLast? = some (within nodes o) :=
      List.getLast?_concat
    have hdrop : (within (node :: nodes) o).sub.dropLast = node.sub := List.dropLast_concat
    rw [List.length_cons, modifyEdge_succ f _ hlast, ih, hdrop]
    rfl

/-- A node within others lies at some depth of the edge: a change there is a change of this node.
The edge may end before that depth. -/
def LiesAt (depth : Nat) (nodes : List Outline) (p : Outline) : Prop :=
  ∀ f, modifyEdge f depth (within nodes p) = within nodes (f p)

/-- There is a node at every depth. -/
theorem exists_liesAt (depth : Nat) (o : Outline) :
    ∃ nodes p, o = within nodes p ∧ LiesAt depth nodes p := by
  induction depth generalizing o with
  | zero => exact ⟨[], o, rfl, fun _ => rfl⟩
  | succ depth ih =>
    rcases hlast : o.sub.getLast? with _ | last
    · exact ⟨[], o, rfl, fun f => modifyEdge_of_getLast?_eq_none f _ hlast⟩
    obtain ⟨nodes, p, rfl, hp⟩ := ih last
    obtain ⟨ps, hps⟩ := List.getLast?_eq_some_iff.1 hlast
    obtain ⟨top, sub⟩ := o
    obtain rfl : sub = ps ++ [within nodes p] := hps
    refine ⟨⟨top, ps⟩ :: nodes, p, rfl, fun f => ?_⟩
    rw [show within (⟨top, ps⟩ :: nodes) p = ⟨top, ps ++ [within nodes p]⟩ from rfl,
      modifyEdge_succ f depth hlast, hp, List.dropLast_concat]
    rfl

/-- A node that changes its text only stays where it is. -/
theorem LiesAt.of_sub_eq {depth : Nat} {nodes : List Outline} {p q : Outline}
    (h : LiesAt depth nodes p) (hq : q.sub = p.sub) : LiesAt depth nodes q := by
  intro f
  have hchange : { p with top := q.top } = q := by
    rw [← hq]
    cases q
    rfl
  have htwice := modifyEdge_modifyEdge (f := fun o => { o with top := q.top }) (fun _ => rfl) f
    depth (within nodes p)
  rw [h, h, Function.comp_apply, hchange] at htwice
  exact htwice

/-- The texts of a node that is the last item of others come after theirs. -/
theorem texts_within (nodes : List Outline) (p : Outline) :
    texts (within nodes p) = nodes.flatMap texts ++ texts p := by
  induction nodes with
  | nil => rfl
  | cons node nodes ih =>
    have htexts :
        texts (node.addItems [within nodes p]) = texts node ++ texts (within nodes p) := by
      rw [texts_eq, texts_eq node, addItems, listTexts_concat, List.cons_append]
    calc texts (within (node :: nodes) p)
        = texts node ++ texts (within nodes p) := htexts
      _ = (node :: nodes).flatMap texts ++ texts p := by
        rw [ih, List.flatMap_cons, List.append_assoc]

/-! ## Adding an item -/

theorem top_modifyEdge {f : Outline → Outline} (hf : ∀ o, (f o).top = o.top) (depth : Nat)
    (o : Outline) : (modifyEdge f depth o).top = o.top := by
  rcases depth with _ | depth
  · exact hf o
  rcases hlast : o.sub.getLast? with _ | last
  · rw [modifyEdge_of_getLast?_eq_none f _ hlast]
    exact hf o
  · rw [modifyEdge_succ f depth hlast]

theorem texts_addItem (t : Text) (o : Outline) : texts (o.addItem t) = texts o ++ [t] := by
  rw [texts_eq, texts_eq o, addItem, listTexts_concat]
  rfl

/-- An item that is added on the edge is the last one in order. -/
theorem listTexts_modifyEdge_addItem (t : Text) (depth : Nat) (o : Outline) :
    listTexts (modifyEdge (addItem t) depth o).sub = listTexts o.sub ++ [t] := by
  obtain ⟨nodes, p, rfl, hp⟩ := exists_liesAt depth o
  have htop : (modifyEdge (addItem t) depth (within nodes p)).top = (within nodes p).top :=
    top_modifyEdge (f := addItem t) (fun _ => rfl) depth _
  have htexts : texts (modifyEdge (addItem t) depth (within nodes p)) =
      texts (within nodes p) ++ [t] := by
    rw [hp, texts_within, texts_within, texts_addItem, List.append_assoc]
  rw [texts_eq, texts_eq (within nodes p), htop, List.cons_append] at htexts
  exact (List.cons.inj htexts).2

/-- It is as deep as it was meant to be, if that is at most one level deeper than the last node. -/
theorem listDepths_modifyEdge_addItem (t : Text) (level depth : Nat) (o : Outline)
    (h : depth = 0 ∨ ∃ d, (listDepths level o.sub).getLast? = some d ∧ level + depth ≤ d + 1) :
    listDepths level (modifyEdge (addItem t) depth o).sub =
      listDepths level o.sub ++ [level + depth] := by
  induction depth generalizing level o with
  | zero => exact listDepths_append level o.sub [leaf t]
  | succ depth ih =>
    obtain ⟨d, hd, hle⟩ := h.resolve_left (Nat.succ_ne_zero depth)
    rcases hlast : o.sub.getLast? with _ | last
    · rw [List.getLast?_eq_none_iff.1 hlast] at hd
      cases hd
    obtain ⟨os, hos⟩ := List.getLast?_eq_some_iff.1 hlast
    have hend : (depths level last).getLast? = some d := by
      rw [hos, listDepths_concat, depths_eq, List.getLast?_append] at hd
      rw [depths_eq]
      simpa using hd
    have hitem : listDepths (level + 1) (modifyEdge (addItem t) depth last).sub =
        listDepths (level + 1) last.sub ++ [level + 1 + depth] := by
      refine ih (level + 1) last ?_
      rw [depths_eq, List.getLast?_cons, Option.some.injEq] at hend
      rcases hitems : (listDepths (level + 1) last.sub).getLast? with _ | e
      · rw [hitems, Option.getD_none] at hend
        exact .inl (by omega)
      · rw [hitems, Option.getD_some] at hend
        exact .inr ⟨e, rfl, by omega⟩
    have hadded : depths level (modifyEdge (addItem t) depth last) =
        depths level last ++ [level + (depth + 1)] := by
      rw [depths_eq, depths_eq, hitem, List.cons_append, Nat.add_right_comm, Nat.add_assoc]
    rw [modifyEdge_succ _ depth hlast, hos, List.dropLast_concat, listDepths_concat,
      listDepths_concat, hadded, List.append_assoc]

end Outline

end DoxygenMarkdown

import DoxygenMarkdown.Text.Lines

/-!
# Outlines

An outline is a text with a list of outlines below it: a paragraph and the bullets under it, which
may have bullets of their own. Comments grow an outline only along its *edge*, the path that always
takes the last child, so `modifyEdge` reaches a node by its depth on that path alone.
-/

namespace DoxygenMarkdown

/-- A text, and the items below it. -/
structure Outline where
  top : Text := []
  sub : List Outline := []
deriving Repr, Inhabited

namespace Outline

mutual

/-- Equality of outlines can be decided. -/
def decEq : (o p : Outline) → Decidable (o = p)
  | ⟨s, os⟩, ⟨t, ps⟩ =>
    match decEqList os ps with
    | isTrue h => if ht : s = t then isTrue (by rw [ht, h]) else isFalse (by simp [ht])
    | isFalse h => isFalse (by simp [h])

/-- Equality of lists of outlines can be decided. -/
def decEqList : (os ps : List Outline) → Decidable (os = ps)
  | [], [] => isTrue rfl
  | [], _ :: _ => isFalse (by simp)
  | _ :: _, [] => isFalse (by simp)
  | o :: os, p :: ps =>
    match decEq o p, decEqList os ps with
    | isTrue h, isTrue hs => isTrue (by rw [h, hs])
    | isFalse h, _ => isFalse (by simp [h])
    | _, isFalse hs => isFalse (by simp [hs])

end

instance : DecidableEq Outline := decEq

/-- An outline without any text of its own and without items. -/
def isEmpty (o : Outline) : Bool := o.top.isEmpty && o.sub.isEmpty

/-- An outline that is one text. -/
def leaf (t : Text) : Outline := ⟨t, []⟩

/-- Change the node at some depth of the edge, or the last node of the edge if it ends earlier. -/
def modifyEdge (f : Outline → Outline) : (depth : Nat) → Outline → Outline
  | 0, o => f o
  | depth + 1, o =>
    match o.sub.getLast? with
    | none => f o
    | some last => { o with sub := o.sub.dropLast ++ [modifyEdge f depth last] }

/-- Add an item as the last one. -/
def addItem (t : Text) (o : Outline) : Outline := { o with sub := o.sub ++ [leaf t] }

/-- Go on with the text of a node: after a space, or on a line of its own where the text so far
ends with the fence that closes a block of code. -/
def continueWith (t : Text) (o : Outline) : Outline :=
  if o.top.isEmpty then { o with top := t }
  else if o.top.endsWith "\n```".toList then { o with top := o.top ++ '\n' :: t }
  else { o with top := o.top ++ ' ' :: t }

/-- Put a line below the text of a node. -/
def addLine (t : Text) (o : Outline) : Outline := { o with top := o.top ++ '\n' :: t }

/-- Put a line below the text of a node, if it has any, or make it the text. -/
def startLine (t : Text) (o : Outline) : Outline :=
  if o.top.isEmpty then { o with top := t } else addLine t o

end Outline

end DoxygenMarkdown

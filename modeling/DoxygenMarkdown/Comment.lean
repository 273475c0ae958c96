import DoxygenMarkdown.Comment.Code
import DoxygenMarkdown.Comment.Line
import DoxygenMarkdown.Comment.Nesting

/-!
# Reading a comment

A comment is read line by line. Between two lines the reader knows three things (`State`): the
elements so far, the last one first; the columns that are open below the last element; and the
block of code that is open, if one is.

* Outside code, a line is an element of its own, or it goes on with the last element.
* Inside code, a line is part of the code, or it closes the block.

Only the last element is ever changed, and only along its edge. Where a line ended up is told by a
depth on that edge (`State.takeLine`), which is where code that opens on the same line goes.
-/

namespace DoxygenMarkdown.Comment

/-- What is known after some lines of a comment. -/
structure State where
  /-- The elements so far, the last one first. -/
  elements : List Element := []
  nesting : Nesting := {}
  code : Option CodeBlock := none
deriving DecidableEq, Repr

namespace State

/-- Put an element below the others. No columns are open below it. -/
def push (s : State) (e : Element) : State :=
  { s with elements := e :: s.elements, nesting := {} }

/-- Change a node on the edge of the last element. -/
def modifyLast (s : State) (depth : Nat) (f : Outline → Outline) : State :=
  match s.elements with
  | [] => s
  | e :: es => { s with elements := e.mapContent (Outline.modifyEdge f depth) :: es }

/-- Whether the last element takes indented lines. -/
def takesLines (s : State) : Bool :=
  match s.elements with
  | [] => false
  | e :: _ => e.takesLines

/-- Take in the column of an indented line. -/
def enter (s : State) (column : Nat) : State := { s with nesting := s.nesting.enter column }

/-- Take in an indented line, and tell the depth of the node that holds its text. Where there is
nothing to go on with, the line is an element, and a bullet is written out. -/
def takeIndented (s : State) (l : IndentedLine) : State × Nat :=
  if s.takesLines then
    let s := s.enter l.indent
    let depth := s.nesting.depth
    if l.isItem then (s.modifyLast depth (Outline.addItem l.text), depth + 1)
    else (s.modifyLast depth (Outline.continueWith l.text), depth)
  else (s.push (.plain (.leaf (if l.isItem then '-' :: ' ' :: l.text else l.text))), 0)

/-- Take in a line outside code, and tell the depth of the node that holds its text, if it has
any. -/
def takeLine (s : State) (line : Text) : Except DirectionError (State × Option Nat) :=
  match readLine line with
  | .error e => .error e
  | .ok (.indented l) =>
    let (s, depth) := s.takeIndented l
    .ok (s, some depth)
  | .ok (.element e) => .ok (s.push e, if e.content?.isSome then some 0 else none)

/-- Open a block of code in a node on the edge of the last element, or as an element of its own. -/
def beginCodeAt (s : State) (opening : Opening) (indent : Nat) : (depth : Option Nat) → State
  | some depth =>
    { s.modifyLast depth (Outline.startLine opening.text) with
      code := some ⟨depth, indent, false⟩ }
  | none =>
    { s.push (.tagged Tag.code opening.languages (.leaf opening.text)) with
      code := some ⟨0, indent, true⟩ }

/-- Take in a line that opens a block of code after the words `before`. -/
def beginCode (s : State) (line before opener : Text) : Except DirectionError State :=
  let opening := readOpening ((Token.scan opener).drop 2)
  let indent := line.indentation
  if before ≠ [] then
    match s.takeLine (line.take indent ++ before) with
    | .error e => .error e
    | .ok (s, depth) => .ok (s.beginCodeAt opening indent depth)
  else if indent ≠ 0 ∧ s.takesLines then
    let s := s.enter indent
    .ok (s.beginCodeAt opening indent (some s.nesting.depth))
  else .ok (s.beginCodeAt opening indent none)

/-- Take in a line of code. -/
def addCode (s : State) (block : CodeBlock) (raw : Text) : State :=
  s.modifyLast block.depth (Outline.addLine (block.content raw))

/-- Close a block of code. -/
def closeCode (s : State) (block : CodeBlock) : State :=
  { s.modifyLast block.depth (Outline.addLine "```".toList) with code := none }

/-- Take in the line that closes a block of code. One that is an element of its own is followed by
an element that says so. -/
def endCode (s : State) (block : CodeBlock) : State :=
  let s := s.closeCode block
  if block.standalone then
    { s with elements := .tagged Tag.endCode [] (.leaf []) :: s.elements }
  else s

/-- Take in a line. -/
def step (s : State) (raw : Text) : Except DirectionError State :=
  let line := dropStar raw
  match s.code with
  | some block =>
    .ok (if Marker.leads line Tag.endCode then s.endCode block else s.addCode block raw)
  | none =>
    match openCode? line with
    | some (before, opener) => s.beginCode line before opener
    | none => (·.1) <$> s.takeLine line

/-- The elements of a comment that ends here, in order. Code that is still open is closed, and the
end of the comment separates like a blank line. -/
def finish (s : State) : List Element :=
  let s := match s.code with
    | some block => s.closeCode block
    | none => s
  (.separator :: s.elements).reverse

end State

/-- Read lines, from a state on. -/
def readLines (s : State) (ls : List Text) : Except DirectionError State := ls.foldlM State.step s

/-- The elements of a comment, in order. A carriage return before a line feed does not count. -/
def elements (t : Text) : Except DirectionError (List Element) :=
  State.finish <$> readLines {} (Text.lines t.dropReturns)

end DoxygenMarkdown.Comment

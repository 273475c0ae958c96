import DoxygenMarkdown.Text.Quoted

/-!
# The direction of a parameter

A parameter's tag may say in brackets whether the item reads the parameter, writes it, or both.
Anything else in the brackets is the one mistake that a comment can make: everything else in a
comment means something, if only text.
-/

namespace DoxygenMarkdown

/-- A direction that is none: what was found after the opening bracket, and the line where the
comment begins if it is part of a file. -/
structure DirectionError where
  found : Text
  line : Option Nat := none
deriving DecidableEq, Repr

namespace DirectionError

/-- What may stand after the opening bracket. -/
def expected : List Text := ["in]".toList, "out]".toList, "in,out]".toList, "out,in]".toList]

/-- The error in words. -/
def message (e : DirectionError) : Text :=
  let place := match e.line with
    | some n => "line ".toList ++ (toString n).toList ++ ": ".toList
    | none => []
  place ++ "unexpected ".toList ++ Text.quoted e.found ++ ", expected one of: ".toList ++
    List.intercalate ", ".toList expected

end DirectionError

namespace Comment

/-- The directions that a qualifier names, the bracket that opens it included. No qualifier, and an
empty one, name none. -/
def directions : List (String × List Text) := [
  ("", []), ("[]", []), ("[in]", ["in".toList]), ("[out]", ["out".toList]),
  ("[in,out]", ["in".toList, "out".toList]), ("[out,in]", ["in".toList, "out".toList])]

/-- Read the qualifier of a parameter. -/
def readDirection (qualifier : Text) : Except DirectionError (List Text) :=
  match directions.find? fun entry => entry.1.toList = qualifier with
  | some entry => .ok entry.2
  | none => .error { found := qualifier.tail }

end Comment

end DoxygenMarkdown

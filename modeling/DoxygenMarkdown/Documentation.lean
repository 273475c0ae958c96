import DoxygenMarkdown.Outline

/-!
# The documentation of an item

What a comment says about an item, sorted by what it is about. A part that the comment does not
speak of is absent; a part that it mentions without saying anything is there and empty, and the two
are shown differently.
-/

namespace DoxygenMarkdown

/-- Whether an item reads a parameter, writes it, or both. -/
inductive Direction where
  | input
  | output
  | both
deriving DecidableEq, Repr

/-- A parameter of the item. -/
structure Parameter where
  name : Text
  direction : Option Direction := none
  description : Option Outline := none
deriving DecidableEq, Repr

/-- A value that the item may return, or an exception that it may throw, and what that means. -/
structure Explained where
  name : Text
  description : Option Outline := none
deriving DecidableEq, Repr

/-- That an item should not be used any more, and what to do instead. -/
structure Deprecation where
  isDeprecated : Bool := true
  message : Option Outline := none
deriving DecidableEq, Repr

/-- What is known about an item. -/
structure Documentation where
  title : Option Outline := none
  brief : Option Outline := none
  description : Option (List Outline) := none
  parameters : Option (List Parameter) := none
  deprecated : Option Deprecation := none
  notes : Option (List Outline) := none
  warnings : Option (List Outline) := none
  todos : Option (List Outline) := none
  returns : Option (List Outline) := none
  returnValues : Option (List Explained) := none
  throws : Option (List Explained) := none
  since : Option Outline := none
deriving DecidableEq, Repr

/-- The direction that qualifiers name. -/
def Direction.ofQualifiers? (qualifiers : List Text) : Option Direction :=
  match qualifiers.contains "in".toList, qualifiers.contains "out".toList with
  | true, true => some both
  | true, false => some input
  | false, true => some output
  | false, false => none

end DoxygenMarkdown

import DoxygenMarkdown.Text.Blank

/-!
# The text inside a doc attribute

A line of documentation stands in a file of bindings as a string literal. Between its quotes, the
*body*, a backslash and the character after it are one escape.

* `readBody?` finds where a body ends: at the first quote that is not part of an escape.
* `pieces` reads a body from left to right. Most escapes stand for a character; one that does not,
  such as the start of a code point in braces, is *kept* as it is written.
* `decodeBody` and `encodeBody` go between a body and the text that it stands for. Only the quote
  and the backslash are escaped again, for all else may stand in a literal as itself.
-/

namespace DoxygenMarkdown.Bindings

/-- The body at the start of a text, up to the quote that closes it, and the text after that
quote. -/
def readBody? : Text → Option (Text × Text)
  | [] => none
  | ['\\'] => none
  | '\\' :: c :: t => (readBody? t).map fun (body, rest) => ('\\' :: c :: body, rest)
  | c :: t =>
    if c = '"' then some ([], t) else (readBody? t).map fun (body, rest) => (c :: body, rest)

/-- What an escape stands for, by the character after the backslash. -/
def escaped? : Char → Option Char
  | 'n' => some '\n'
  | 't' => some '\t'
  | 'r' => some '\r'
  | '0' => some '\x00'
  | '"' => some '"'
  | '\'' => some '\''
  | '\\' => some '\\'
  | _ => none

/-- A piece of a body: a character, or an escape that stands for none. -/
inductive Piece where
  | char (c : Char)
  | kept (c : Char)
deriving DecidableEq, Repr

/-- A piece as it stands in a text. -/
def Piece.text : Piece → Text
  | char c => [c]
  | kept c => ['\\', c]

/-- The piece that a backslash and a character make up. -/
def pieceOfEscape (c : Char) : Piece :=
  match escaped? c with
  | some d => .char d
  | none => .kept c

/-- The pieces of a body, in order. -/
def pieces : Text → List Piece
  | [] => []
  | ['\\'] => [.char '\\']
  | '\\' :: c :: t => pieceOfEscape c :: pieces t
  | c :: t => .char c :: pieces t

/-- The text that a body stands for. -/
def decodeBody (body : Text) : Text := (pieces body).flatMap Piece.text

/-- A body that stands for a text. -/
def encodeBody (t : Text) : Text := t.flatMap fun c => if c = '\\' ∨ c = '"' then ['\\', c] else [c]

end DoxygenMarkdown.Bindings

import DoxygenMarkdown.Text.Blank

/-!
# Texts as bytes

Files hold bytes; the library works on texts. `encode` writes UTF-8. `decode` reads any bytes at
all: where they are not well formed, each longest start of a character that cannot go on becomes
one replacement character, and so does a byte that starts none.

The reader keeps at most one unfinished character (`Partial`), so it walks over the bytes once.
-/

namespace DoxygenMarkdown.Utf8

/-- What stands for bytes that are no character. -/
def replacement : Char := '\ufffd'

/-- The start of a character: `more` bytes are missing, the next one lies between `low` and `high`,
and `value` holds the bits read so far. -/
structure Partial where
  more : Nat
  low : Nat
  high : Nat
  value : Nat

/-- What a byte means where a character may start. -/
inductive Start where
  | char (c : Char)
  | unfinished (p : Partial)
  | stray

/-- Read a byte where a character may start. The bounds on the second byte leave out the forms that
are longer than they need be, the surrogates, and all beyond the last code point. -/
def start (byte : UInt8) : Start :=
  let b := byte.toNat
  if b < 0x80 then .char (Char.ofNat b)
  else if b < 0xC2 then .stray
  else if b < 0xE0 then .unfinished ⟨1, 0x80, 0xBF, b - 0xC0⟩
  else if b = 0xE0 then .unfinished ⟨2, 0xA0, 0xBF, 0⟩
  else if b = 0xED then .unfinished ⟨2, 0x80, 0x9F, b - 0xE0⟩
  else if b < 0xF0 then .unfinished ⟨2, 0x80, 0xBF, b - 0xE0⟩
  else if b = 0xF0 then .unfinished ⟨3, 0x90, 0xBF, 0⟩
  else if b < 0xF4 then .unfinished ⟨3, 0x80, 0xBF, b - 0xF0⟩
  else if b = 0xF4 then .unfinished ⟨3, 0x80, 0x8F, 4⟩
  else .stray

/-- Read bytes, the start of a character perhaps being open. -/
def decodeFrom : Option Partial → List UInt8 → Text
  | none, [] => []
  | some _, [] => [replacement]
  | none, b :: bytes =>
    match start b with
    | .char c => c :: decodeFrom none bytes
    | .unfinished p => decodeFrom (some p) bytes
    | .stray => replacement :: decodeFrom none bytes
  | some p, b :: bytes =>
    if p.low ≤ b.toNat ∧ b.toNat ≤ p.high then
      let value := 64 * p.value + (b.toNat - 0x80)
      if p.more = 1 then Char.ofNat value :: decodeFrom none bytes
      else decodeFrom (some ⟨p.more - 1, 0x80, 0xBF, value⟩) bytes
    else
      match start b with
      | .char c => replacement :: c :: decodeFrom none bytes
      | .unfinished p => replacement :: decodeFrom (some p) bytes
      | .stray => replacement :: replacement :: decodeFrom none bytes

/-- Read bytes as a text, whatever they are. -/
def decode (bytes : List UInt8) : Text := decodeFrom none bytes

/-- Write a text as bytes. -/
def encode (t : Text) : List UInt8 := t.flatMap String.utf8EncodeChar

end DoxygenMarkdown.Utf8

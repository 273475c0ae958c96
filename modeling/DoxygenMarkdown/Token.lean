import DoxygenMarkdown.Text.Blank

/-!
# Tokens of a comment

A comment falls into tokens of five kinds. Cutting never fails: whatever is neither a marker, a
brace, a blank nor a line break belongs to a word.

* Two backslashes in a row are one marker, the escaped spelling of a single one; of three, the
  third begins anew.
* A word is as long as it can be, so two words never follow each other.
* Only the space and the tab are blanks here. Other white space is part of a word: the tokens are
  finer than the words of `Text.words` where markers and braces are concerned, and coarser here.

Nothing is lost: the texts of the tokens, one after the other, are the comment (`concat_scan`).
-/

namespace DoxygenMarkdown

/-- The kinds of tokens. -/
inductive Token.Kind where
  | marker
  | brace
  | word
  | blank
  | lineBreak
deriving DecidableEq, Repr

/-- A piece of a comment. -/
structure Token where
  kind : Token.Kind
  text : Text
deriving DecidableEq, Repr

namespace Token

/-- The kind of a character by itself. -/
def kindOf (c : Char) : Kind :=
  if c = '@' ∨ c = '\\' then .marker
  else if c = '{' ∨ c = '}' then .brace
  else if isIndent c then .blank
  else if c = '\n' then .lineBreak
  else .word

/-- Put a character of a word in front of some tokens. -/
def consWord (c : Char) : List Token → List Token
  | ⟨.word, w⟩ :: tokens => ⟨.word, c :: w⟩ :: tokens
  | tokens => ⟨.word, [c]⟩ :: tokens

/-- The tokens of a text. -/
def scan : Text → List Token
  | [] => []
  | '\\' :: '\\' :: t => ⟨.marker, ['\\', '\\']⟩ :: scan t
  | c :: t => if kindOf c = .word then consWord c (scan t) else ⟨kindOf c, [c]⟩ :: scan t

/-- The text that tokens make up. -/
def concat (tokens : List Token) : Text := tokens.flatMap (·.text)

@[simp] theorem concat_consWord (c : Char) (tokens : List Token) :
    concat (consWord c tokens) = c :: concat tokens := by
  unfold consWord
  split <;> simp [concat]

/-- Cutting a text into tokens loses nothing. -/
@[simp] theorem concat_scan (t : Text) : concat (scan t) = t := by
  fun_induction scan t with
  | case1 => rfl
  | case2 t ih => simpa [concat] using ih
  | case3 c t _ _ ih => rw [concat_consWord, ih]
  | case4 c t _ _ ih => simpa [concat] using ih

end Token

end DoxygenMarkdown

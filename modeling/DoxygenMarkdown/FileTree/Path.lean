import DoxygenMarkdown.Text.Blank

/-!
# Paths as they are written

A path is a text in which slashes part the names. The functions of this module look at the text
alone: whether there is such a file does not matter to them.
-/

namespace DoxygenMarkdown.Path

/-- The names of a path, with an empty one wherever two slashes meet or one stands at an end. -/
def names (p : Text) : List Text := p.splitOn '/'

/-- Whether a path starts at the root. -/
def isAbsolute (p : Text) : Bool := p.startsWith ['/']

/-- A path seen from a folder. An absolute path stays as it is. -/
def join (folder p : Text) : Text :=
  if isAbsolute p then p
  else if folder.isEmpty || folder.endsWith ['/'] then folder ++ p
  else folder ++ '/' :: p

/-- What stands after the last slash. -/
def baseName (p : Text) : Text := (names p).getLastD []

/-- What stands before the last slash, without the slashes at its end unless there is nothing
else. -/
def directory (p : Text) : Text :=
  let head := p.dropEndWhile (· ≠ '/')
  let trimmed := Text.dropEndWhile (· == '/') head
  if trimmed.isEmpty then head else trimmed

/-- The ending of a file name, from its last dot on. Dots that a name begins with begin no
ending. -/
def extension (name : Text) : Text :=
  let stem := name.dropEndWhile (· ≠ '.')
  if stem.all (· == '.') then [] else name.drop (stem.length - 1)

/-- The name of the folder above. -/
def above : Text := ['.', '.']

/-- Go on to a name, on a path whose names so far are given from the last one backwards. Above the
root there is the root. -/
def climb (rooted : Bool) (before : List Text) (name : Text) : List Text :=
  if name = above then
    match before with
    | [] => if rooted then [] else [above]
    | last :: rest => if last = above then above :: before else rest
  else name :: before

/-- How many of the slashes that a path begins with are kept: two count as two, and more than two
as one. -/
def rootSlashes : Text → Nat
  | '/' :: '/' :: '/' :: _ => 1
  | '/' :: '/' :: _ => 2
  | '/' :: _ => 1
  | _ => 0

/-- The shortest way to write a path: no empty names, and no names that lead nowhere or back. A null
character and what is still behind it then are left out. -/
def normalize (p : Text) : Text :=
  let walked := (names p).filter fun name => name ≠ [] && name ≠ ['.']
  let kept := (walked.foldl (climb (isAbsolute p)) []).reverse
  let text := List.replicate (rootSlashes p) '/' ++ List.intercalate ['/'] kept
  let text := text.takeWhile (· ≠ '\x00')
  if text.isEmpty then ['.'] else text

end DoxygenMarkdown.Path

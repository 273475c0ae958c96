import DoxygenMarkdown.Disk
import DoxygenMarkdown.FileTree.Path
import DoxygenMarkdown.Text.Quoted
import DoxygenMarkdown.Text.Utf8

/-!
# Trees of files

The files that a program works on, as a value: folders, files with their bytes, and the folder that
relative paths start from. A file is told by its *location*, the names on the way to it from the
root; a path is followed name by name (`locate`), so that it may lead through a folder and back,
but not through a file.

A tree is a simple disk. There are folders and files, without links between them and without
anything else, everybody may read and write them, and there is always room for more. So an operation
fails only because of its path, with a `FileError` that remembers the path as it was given: it leads
nowhere, or through a file, to a folder or to none, or it has a name that is too long for a file.
Then nothing is changed. Writing changes one location and no other (`fileAt?_put`).
-/

namespace DoxygenMarkdown

/-- Why a file cannot be reached. -/
inductive FileError.Cause where
  | missing
  | isFolder
  | notFolder
  /-- No path has a null character in it. -/
  | nullCharacter
deriving DecidableEq, Repr

/-- A path that could not be followed, or did not lead to what was asked for. -/
structure FileError where
  cause : FileError.Cause
  path : Text
  /-- Whether nothing is there because nothing can be: a name is too long. -/
  overlong : Bool := false
deriving DecidableEq, Repr

/-- The error in words. -/
def FileError.message (e : FileError) : Text :=
  match e.cause with
  | .missing =>
    (if e.overlong then "[Errno 36] File name too long: ".toList
      else "[Errno 2] No such file or directory: ".toList) ++ Text.quoted e.path
  | .isFolder => "[Errno 21] Is a directory: ".toList ++ Text.quoted e.path
  | .notFolder => "[Errno 20] Not a directory: ".toList ++ Text.quoted e.path
  | .nullCharacter => "embedded null byte".toList

namespace Location

/-- Go one name further. The empty name and the dot lead nowhere, two dots lead back. -/
def step (l : Location) (name : Text) : Location :=
  if name = [] ∨ name = ['.'] then l
  else if name = Path.above then l.dropLast
  else l ++ [name]

/-- The way from a folder to a location that lies below it. -/
def from? : (folder : Location) → Location → Option Location
  | [], l => some l
  | _ :: _, [] => none
  | a :: folder, b :: l => if a = b then from? folder l else none

/-- The absolute path to a location. -/
def path (l : Location) : Text := '/' :: List.intercalate ['/'] l

/-- Whether a name is too long for a file or a folder. -/
def isOverlong (name : Text) : Bool := 255 < (Utf8.encode name).length

end Location

/-- Folders and files. The root is a folder and is not listed. -/
structure FileTree where
  /-- Where relative paths start. -/
  here : Location := []
  folders : List Location := []
  files : List (Location × Bytes) := []
deriving DecidableEq, Repr

namespace FileTree

/-- Whether there is a folder at a location. -/
def isFolderAt (t : FileTree) (l : Location) : Bool := l.isEmpty || t.folders.contains l

/-- The content of the file at a location. -/
def fileAt? (t : FileTree) (l : Location) : Option Bytes := t.files.lookup l

/-- Put a content in the place of the one at a location, or at the end of the list. -/
def putFile (l : Location) (bytes : Bytes) :
    List (Location × Bytes) → List (Location × Bytes)
  | [] => [(l, bytes)]
  | (m, old) :: files =>
    if m = l then (l, bytes) :: files else (m, old) :: putFile l bytes files

/-- Set the content of the file at a location. -/
def put (t : FileTree) (l : Location) (bytes : Bytes) : FileTree :=
  { t with files := putFile l bytes t.files }

theorem lookup_putFile (l m : Location) (bytes : Bytes) (files : List (Location × Bytes)) :
    (putFile l bytes files).lookup m = if m = l then some bytes else files.lookup m := by
  induction files with
  | nil =>
    by_cases h : m = l
    · simp [putFile, h]
    · simp [putFile, List.lookup_cons, h, beq_false_of_ne h]
  | cons f files ih =>
    obtain ⟨k, old⟩ := f
    by_cases h : m = k
    · subst h
      by_cases hl : m = l <;> simp [putFile, hl]
    · have hb : (m == k) = false := beq_false_of_ne h
      by_cases hk : k = l
      · subst hk; simp [putFile, List.lookup_cons, hb, h]
      · simp [putFile, List.lookup_cons, hk, hb, ih]

/-- Writing changes one location and no other. -/
theorem fileAt?_put (t : FileTree) (l m : Location) (bytes : Bytes) :
    (t.put l bytes).fileAt? m = if m = l then some bytes else t.fileAt? m :=
  lookup_putFile l m bytes t.files

/-- Make a folder at a location, and those on the way to it. -/
def makeFolder (t : FileTree) (l : Location) : FileTree :=
  { t with
    folders := ((List.range (l.length + 1)).map l.take).foldl
      (fun folders m => if folders.contains m then folders else folders ++ [m]) t.folders }

/-- Where a path starts. -/
def start (t : FileTree) (p : Text) : Location := if Path.isAbsolute p then [] else t.here

/-- Follow names from a location. Each step needs a folder to start from, and a name that is not
too long. -/
def follow (t : FileTree) : Location → List Text → Except (FileError.Cause × Bool) Location
  | l, [] => .ok l
  | l, name :: names =>
    if t.isFolderAt l then
      if Location.isOverlong name then .error (.missing, true) else follow t (l.step name) names
    else if (t.fileAt? l).isSome then .error (.notFolder, false)
    else .error (.missing, false)

/-- The location that a path leads to, where there may be a file, a folder or nothing. -/
def locate (t : FileTree) (p : Text) : Except FileError Location :=
  if p.contains '\x00' then .error { cause := .nullCharacter, path := p }
  else if p.isEmpty then .error { cause := .missing, path := p }
  else
    match t.follow (t.start p) (Path.names p) with
    | .error (cause, overlong) => .error ⟨cause, p, overlong⟩
    | .ok l => .ok l

/-- Whether a path leads to a file. -/
def isFile (t : FileTree) (p : Text) : Bool :=
  match t.locate p with
  | .ok l => (t.fileAt? l).isSome
  | .error _ => false

/-- Whether a path leads to a folder. -/
def isFolder (t : FileTree) (p : Text) : Bool :=
  match t.locate p with
  | .ok l => t.isFolderAt l
  | .error _ => false

/-- The location of the file that a path leads to, and its content. -/
def find (t : FileTree) (p : Text) : Except FileError (Location × Bytes) := do
  let l ← t.locate p
  if t.isFolderAt l then .error { cause := .isFolder, path := p }
  else
    match t.fileAt? l with
    | some bytes => .ok (l, bytes)
    | none => .error { cause := .missing, path := p }

/-- Read a file. -/
def read (t : FileTree) (p : Text) : Except FileError Bytes := (·.2) <$> t.find p

/-- Write a file, which is made if there is none. -/
def write (t : FileTree) (p : Text) (bytes : Bytes) : Except FileError FileTree := do
  let l ← t.locate p
  if t.isFolderAt l then .error { cause := .isFolder, path := p } else .ok (t.put l bytes)

/-- Copy a file. A copy to a folder is made in that folder, under the name of the file. -/
def copy (t : FileTree) (source target : Text) : Except FileError FileTree := do
  let bytes ← t.read source
  let target := if t.isFolder target then Path.join target (Path.baseName source) else target
  t.write target bytes

/-- Remove a file. -/
def remove (t : FileTree) (p : Text) : Except FileError FileTree := do
  let (l, _) ← t.find p
  .ok { t with files := t.files.filter (·.1 ≠ l) }

/-- Write a file, and make the folders on the way to it. -/
def install (t : FileTree) (p : Text) (bytes : Bytes) : FileTree :=
  let l := (Path.names p).foldl Location.step (t.start p)
  (t.makeFolder l.dropLast).put l bytes

/-- Make the folder that a path leads to, and those on the way to it. -/
def installFolder (t : FileTree) (p : Text) : FileTree :=
  t.makeFolder ((Path.names p).foldl Location.step (t.start p))

/-- The name of an entry of a folder, if a location is that of one. -/
def childName? (folder l : Location) : Option Text :=
  match Location.from? folder l with
  | some [name] => some name
  | _ => none

/-- What can be seen down to some depth below a folder: its folders, in the order of the tree, and
its files. -/
def listing (t : FileTree) : (depth : Nat) → Location → Listing
  | 0, _ => .nil
  | depth + 1, l =>
    (t.folders.filterMap (childName? l)).foldr
      (fun name rest => .folder name (t.listing depth (l ++ [name])) rest)
      ((t.files.filterMap fun f => childName? l f.1).foldr .file .nil)

/-- How deep files lie in a tree. -/
def depth (t : FileTree) : Nat := (t.files.map (·.1.length)).foldr max 0

/-- What can be seen below the folder that a path leads to. -/
def below (t : FileTree) (p : Text) : Listing :=
  match t.locate p with
  | .ok l => t.listing t.depth l
  | .error _ => .nil

/-- What becomes of a tree when something is tried that may fail. -/
def attempt (t : FileTree) : Except FileError FileTree → FileTree × Except FileError Unit
  | .ok t' => (t', .ok ())
  | .error e => (t, .error e)

instance : Disk FileTree FileError where
  isFile := isFile
  isFolder := isFolder
  below := below
  read := read
  copy t source target := t.attempt (t.copy source target)
  write t p bytes := t.attempt (t.write p bytes)

end FileTree

end DoxygenMarkdown

import DoxygenMarkdown.Text.Blank

/-!
# What can be seen below a folder

A disk lists the entries of a folder, each with its name and whether it is a folder, in any order
(`Listing`). What is no folder counts as a file here: looking at a folder does not tell whether it
can be read, so a pipe, or a link that leads nowhere, is listed like a file. A link to a folder is
listed as a folder in which nothing can be seen, and so is a folder that cannot be listed.

A folder is gone through from the top (`Listing.walk`): first its own files, by their names, and
then what lies in its folders, one folder after the other, as they are listed.
-/

namespace DoxygenMarkdown

/-- The names on the way from a folder to what lies below it. -/
abbrev Location := List Text

/-- The entries of a folder, with what can be seen below those that are folders. -/
inductive Listing where
  | nil
  | file (name : Text) (rest : Listing)
  | folder (name : Text) (below rest : Listing)
deriving DecidableEq, Repr

namespace Listing

/-- The names of the files that lie in the folder itself. -/
def fileNames : Listing → List Text
  | nil => []
  | file name rest => name :: rest.fileNames
  | folder _ _ rest => rest.fileNames

/-- The ways to the files that lie in the folder itself, in the order of their names. -/
def ownFiles (t : Listing) : List Location :=
  (t.fileNames.mergeSort fun a b => !b.lex a).map ([·])

/-- The ways to the files that lie in the folders of the folder. -/
def filesInFolders : Listing → List Location
  | nil => []
  | file _ rest => rest.filesInFolders
  | folder name below rest =>
    (below.ownFiles ++ below.filesInFolders).map (name :: ·) ++ rest.filesInFolders

/-- The ways to all files below the folder, in the order in which it is gone through. -/
def walk (t : Listing) : List Location := t.ownFiles ++ t.filesInFolders

end Listing

end DoxygenMarkdown

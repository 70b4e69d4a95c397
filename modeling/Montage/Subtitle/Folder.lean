import Montage.Subtitle.Join
import Montage.Subtitle.Srt

/-!
# Subtitle files

A folder holds texts under their paths.  What is read from it and written to it are SRT documents;
a path that leads nowhere is an error that names the path.
-/

set_option autoImplicit false

namespace Montage

/-- Texts under their paths, in the order in which they were first written. -/
structure Folder where
  files : List (String × String) := []
  deriving Repr

namespace Folder

/-! ## Paths -/

/-- The steps of a path; steps that stay where they are count for nothing. -/
def steps (path : String) : List (List Char) :=
  (splitAll '/' path.toList).filter fun step ↦ !step.isEmpty && step != ['.']

/-- Whether a path can lead to a file of a folder: it begins in the folder and ends with a name. -/
def isFilePath (path : String) : Bool :=
  path.toList.head? != some '/' && path.toList.getLast? != some '/' && !(steps path).isEmpty

/-- The text under a path. -/
def text? (folder : Folder) (path : String) : Option String :=
  if isFilePath path then
    (folder.files.find? fun file ↦ steps file.1 == steps path).map (·.2)
  else none

/-- Whether some file lies in the place where a path leads to or below it. -/
def hasBelow (folder : Folder) (place : List (List Char)) : Bool :=
  folder.files.any fun file ↦ place.isPrefixOf (steps file.1) && place != steps file.1

/-- Whether a file may be written under a path: its folder is there, and it is no folder itself. -/
def canWrite (folder : Folder) (path : String) : Bool :=
  let above := (steps path).dropLast
  isFilePath path && (above.isEmpty || folder.hasBelow above) && !folder.hasBelow (steps path)

/-- The folder with a text under a path. -/
def put (folder : Folder) (path text : String) : Folder :=
  match folder.files.find? fun file ↦ steps file.1 == steps path with
  | some file => ⟨Json.put file.1 text folder.files⟩
  | none => ⟨Json.put path text folder.files⟩

/-! ## Subtitles -/

variable [Rounding]

/-- Reads the file under a path. -/
def read (folder : Folder) (options : ReadOptions) (path : String) : Reported (List Subtitle) := do
  if path.toList.contains '\x00' then Reported.fail .badValue
  match folder.text? path with
  | some text => Srt.read options text
  | none => Reported.fail (.cannotRead path)

/-- Writes subtitles under a path; gives the text and the folder that holds it. -/
def write (folder : Folder) (options : WriteOptions) (path : String) (subtitles : List Subtitle) :
    Except Error (String × Folder) := do
  let text ← Srt.write options subtitles
  if path.toList.contains '\x00' then throw .badValue
  if folder.canWrite path then return (text, folder.put path text)
  throw (.cannotWrite path)

/-- Joins the files under some paths. -/
def join (folder : Folder) (options : ReadOptions) (paths : List String) (gap : Json) :
    Reported (List Subtitle) :=
  Subtitle.joinFrom (folder.read options) gap {} paths

end Folder
end Montage

import RichText.Catalog
import RichText.Text.Blank

/-!
Files and directories, found by paths. A path is walked part by part, from the root or from the
working directory, and every part before the last has to lead to a directory. A file holds bytes,
which may be no text, and the system may refuse any of the steps.
-/
namespace RichText.Command

/-- Why a path leads to no file, or a file gives no text. -/
inductive FileError where
  | missing
  /-- A file stands where the path needs a directory. -/
  | notDirectory
  /-- A directory stands where the path needs a file. -/
  | isDirectory
  | nameTooLong
  /-- The bytes are not UTF-8. -/
  | notText
  /-- Whatever else the system reports, in its words. -/
  | other (report : String)
  deriving DecidableEq, Repr

def FileError.message : FileError → String
  | missing => "No such file or directory (os error 2)"
  | notDirectory => "Not a directory (os error 20)"
  | isDirectory => "Is a directory (os error 21)"
  | nameTooLong => "File name too long (os error 36)"
  | notText => "stream did not contain valid UTF-8"
  | other report => report

/-- What a file or the standard input gives to a reader: bytes, or an error of the system. -/
inductive Content where
  | bytes (bs : ByteArray)
  | broken (e : FileError)

namespace Content

def ofText (text : String) : Content := bytes text.toUTF8

instance : Coe String Content := ⟨ofText⟩

/-- The whole content as a text. -/
def text : Content → Except FileError String
  | bytes bs =>
    match String.fromUTF8? bs with
    | some text => .ok text
    | none => .error .notText
  | broken e => .error e

@[simp] theorem text_ofText (text : String) : (ofText text).text = .ok text := by
  have h : String.fromUTF8? text.toUTF8 = some text := dif_pos text.isValidUTF8
  simp only [ofText, Content.text, h]

end Content

/-- Parts a path at its slashes. -/
def splitSlashes : List Char → List (List Char)
  | [] => [[]]
  | c :: cs =>
    if c = '/' then [] :: splitSlashes cs
    else match splitSlashes cs with
      | [] => [[c]]
      | part :: parts => (c :: part) :: parts

def pathParts (path : String) : List String := (splitSlashes path.toList).map String.ofList

/-- Whether a part names something. Nothing and a point stay, and two points lead upwards. -/
def isName (part : String) : Bool := part ≠ "" && part ≠ "." && part ≠ ".."

/-- Where a part leads from a directory, both given by the names on the way from the root. -/
def follow (place : List String) (part : String) : List String :=
  if isName part then place ++ [part] else if part = ".." then place.dropLast else place

/-- The path from the root. -/
def fullPath (place : List String) : String := String.join (place.map ("/" ++ ·))

structure FileSystem where
  /-- The contents of the files by their full paths. -/
  files : Catalog Content := .empty
  /-- The full paths of the directories below the root. -/
  directories : List String := []
  /-- The names on the way to the working directory. -/
  here : List String := []
  /-- What the system answers to a look into certain directories and to the writing of certain
  files, by their full paths. -/
  refused : Catalog FileError := .empty

namespace FileSystem

/-- The most bytes of a name. -/
def maxName : Nat := 255

/-- The most bytes of a path. -/
def maxPath : Nat := 4095

/-- Where a path starts. -/
def start (fs : FileSystem) (path : String) : List String :=
  if path.toList.head? = some '/' then [] else fs.here

def hasDirectory (fs : FileSystem) (place : List String) : Bool :=
  place = [] || fullPath place ∈ fs.directories

def content? (fs : FileSystem) (place : List String) : Option Content :=
  fs.files.get? (fullPath place)

/-- The place itself, unless the system refuses it. -/
def permit (fs : FileSystem) (place : List String) : Except FileError (List String) :=
  match fs.refused.get? (fullPath place) with
  | some e => .error e
  | none => .ok place

/-- Where a part leads from a directory, if it leads to a directory. -/
def step (fs : FileSystem) (place : List String) (part : String) :
    Except FileError (List String) :=
  if maxName < part.utf8ByteSize then .error .nameTooLong
  else if fs.hasDirectory (follow place part) then .ok (follow place part)
  else if (fs.content? (follow place part)).isSome then .error .notDirectory
  else .error .missing

/-- One step to a directory, to be looked into. -/
def enter (fs : FileSystem) (place : List String) (part : String) :
    Except FileError (List String) := do fs.permit (← fs.step place part)

/-- The directory that the parts of a path lead to, the last one left out. -/
def directoryOf (fs : FileSystem) (path : String) : Except FileError (List String) :=
  if maxPath < path.utf8ByteSize then .error .nameTooLong
  else do (pathParts path).dropLast.foldlM fs.enter (← fs.permit (fs.start path))

/-- The place in a directory that a file of that name has. -/
def placeIn (fs : FileSystem) (directory : List String) (name : String) :
    Except FileError (List String) :=
  if !isName name then .error .isDirectory
  else if maxName < name.utf8ByteSize then .error .nameTooLong
  else if fs.hasDirectory (directory ++ [name]) then .error .isDirectory
  else .ok (directory ++ [name])

/-- The text of a file. -/
def read (fs : FileSystem) (path : String) : Except FileError String := do
  let directory ← fs.directoryOf path
  let place ← fs.placeIn directory ((pathParts path).getLastD "")
  match fs.content? place with
  | some content => content.text
  | none => .error .missing

/-- The place of a file to be written. What ends in a slash is taken for a directory, even before
it is looked up. -/
def target (fs : FileSystem) (path : String) : Except FileError (List String) := do
  let stem := String.ofList (dropEndWhile (· = '/') path.toList)
  let directory ← fs.directoryOf stem
  if stem = path then do fs.permit (← fs.placeIn directory ((pathParts path).getLastD ""))
  else .error .isDirectory

/-- Makes a text the whole content of a file. -/
def write (fs : FileSystem) (path text : String) : Except FileError FileSystem := do
  let place ← fs.target path
  return { fs with files := fs.files.insert (fullPath place) (.ofText text) }

/-- Adds a directory and those above it. -/
def addDirectory (fs : FileSystem) (place : List String) : FileSystem :=
  { fs with directories := (List.range place.length).map (fun n => fullPath (place.take (n + 1))) ++
      fs.directories }

/-- Adds a file and the directories above it. -/
def addFile (fs : FileSystem) (path text : String) : FileSystem :=
  let place := (pathParts path).foldl follow (fs.start path)
  { fs.addDirectory place.dropLast with files := fs.files.insert (fullPath place) (.ofText text) }

/-- The files with those paths, seen from a working directory. -/
def ofFiles (here : List String) (files : List (String × String)) : FileSystem :=
  files.foldl (fun fs f => fs.addFile f.1 f.2) (addDirectory { here } here)

end FileSystem

end RichText.Command

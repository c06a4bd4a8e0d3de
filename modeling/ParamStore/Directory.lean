import ParamStore.KeyMap
import ParamStore.Text.Blank
import ParamStore.Error

/-!
# Directories — the files that a run reads and writes

A directory is the files under a working directory, by their path, and its folders. Paths are cut at
    slashes; empty parts and single dots go nowhere, two dots lead back up. A place above the
    working directory is reached by leading double dots, and a place that is counted from the root
    of the file system starts with an empty part; neither is part of a listing.

* **`read?`** — the text of a file.
* **`write`** — a new text for a file, after its parent folders have been made. Folders made on the
  way stay even if the file cannot be written.
-/

namespace ParamStore

/-- The files under a working directory. -/
structure Directory where
  files : KeyMap String
  folders : List (List String)
deriving Repr

namespace Directory

/-- No file and no folder. -/
def empty : Directory := ⟨[], []⟩

instance : Inhabited Directory := ⟨empty⟩

/-- The parts of a path, those that go nowhere left out. -/
def parts (path : String) : List String :=
  (Text.split (· = '/') path).filter fun part => part ≠ "" && part ≠ "."

/-- The path can only be a folder's: it is empty or ends where a folder is. -/
def namesFolder (path : String) : Bool :=
  match (Text.split (· = '/') path).getLast? with
  | some last => last = "" || last = "." || last = ".."
  | none => true

/-- The path starts at the root of the file system. -/
def isAbsolute (path : String) : Bool := path.toList.head? == some '/'

/-- Where a path starts: at the root, which is the place of a single empty part, or at the working
    directory. -/
def start (path : String) : List String := if isAbsolute path then [""] else []

/-- A place as the path of a file. -/
def placeName (place : List String) : String := String.intercalate "/" place

/-- The working directory, one above it, or the root. -/
def isBase (place : List String) : Bool := place.all (· = "..") || place == [""]

/-- A folder is at the place. -/
def isFolder (d : Directory) (place : List String) : Bool :=
  isBase place || d.folders.contains place

/-- A file is at the place. -/
def isFile (d : Directory) (place : List String) : Bool := d.files.contains (placeName place)

/-- One step from a folder; nothing is above the root. -/
def step (place : List String) (part : String) : List String :=
  if part ≠ ".." then place ++ [part]
  else if place == [""] then place
  else if isBase place then place ++ [".."]
  else place.dropLast

/-- The place at the end of a way through folders. -/
def walk (d : Directory) : List String → List String → Option (List String)
  | place, [] => some place
  | place, part :: rest => if d.isFolder place then d.walk (step place part) rest else none

/-- The text of a file. -/
def read? (d : Directory) (path : String) : Option String :=
  if namesFolder path then none
  else (d.walk (start path) (parts path)).bind fun place => d.files.find? (placeName place)

/-- Makes the folders of a way that are not there yet; a file on the way refuses. -/
def makeFolders : List String → List String → Directory → Attempt Directory (List String)
  | place, [], d => .pure place d
  | place, part :: rest, d =>
    let next := step place part
    if d.isFolder next then makeFolders next rest d
    else if d.isFile next then .refuse .unwritable d
    else makeFolders next rest { d with folders := next :: d.folders }

/-- Gives a file a new text, which may depend on the old one. -/
def update (path : String) (change : Option String → String) (d : Directory) :
    Attempt Directory Unit :=
  let way := parts path
  (makeFolders (start path) way.dropLast d).andThen fun parent d =>
    match way.getLast? with
    | none => .refuse .unwritable d
    | some name =>
      let place := step parent name
      if namesFolder path || d.isFolder place then .refuse .unwritable d
      else
        let text := change (d.files.find? (placeName place))
        .pure () { d with files := d.files.insert (placeName place) text }

/-- Writes a file, replacing its text. -/
def write (path text : String) (d : Directory) : Attempt Directory Unit :=
  d.update path fun _ => text

/-- Makes sure that a file is there, keeping its text. -/
def touch (path : String) (d : Directory) : Attempt Directory Unit :=
  d.update path fun old => old.getD ""

/-- The directory with some files; files that cannot be placed are left out. -/
def ofFiles (files : List (String × String)) : Directory :=
  files.foldl (fun d file => (d.write file.1 file.2).state) empty

/-- The name is that of a file under the working directory. -/
def isLocal (name : String) : Bool :=
  match parts name with
  | first :: _ => first ≠ ".." && !isAbsolute name
  | [] => false

/-- The paths of the files under the working directory, ascending. -/
def list (d : Directory) : List String := d.files.names.filter isLocal

end Directory

end ParamStore

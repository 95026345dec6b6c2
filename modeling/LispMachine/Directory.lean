import LispMachine.Path

set_option autoImplicit false

namespace LispMachine

inductive FileError
  | notFound
  | notADirectory
  | isADirectory
  | nameTooLong
  | nulInName
  | invalidText
  | other (text : String)
  deriving DecidableEq

def FileError.message : FileError → String
  | .notFound => "No such file or directory (os error 2)"
  | .notADirectory => "Not a directory (os error 20)"
  | .isADirectory => "Is a directory (os error 21)"
  | .nameTooLong => "File name too long (os error 36)"
  | .nulInName => "file name contained an unexpected NUL byte"
  | .invalidText => "stream did not contain valid UTF-8"
  | .other text => text

inductive Place
  | below (key : List String)
  | above

namespace Place

def start (path : String) : Place := if Path.isAbsolute path then .above else .below []

def enter : Place → String → Place
  | .above, _ => .above
  | .below key, name =>
      if !Path.isStep name then .below key
      else if name ≠ ".." then .below (key ++ [name])
      else if key.isEmpty then .above
      else .below key.dropLast

end Place

/-- Folders and files by the names that lead to them. No name leads to the directory itself, which
is always a folder. -/
structure Directory where
  folders : List (List String)
  files : List (List String × ByteArray)

namespace Directory

def empty : Directory := ⟨[], []⟩

def find? (d : Directory) (key : List String) : Option ByteArray :=
  (d.files.find? (·.1 = key)).map Prod.snd

def isFolder (d : Directory) (key : List String) : Bool :=
  key.isEmpty || d.folders.contains key

-- Follow a name from a place, which must be a folder. Of what is above the directory nothing is
-- known but that it is made of folders.
def follow (d : Directory) (place : Place) (name : String) : Except FileError Place :=
  match place with
  | .above =>
      if !Path.isStep name || name = ".." then .ok .above
      else if Path.isTooLongName name then .error .nameTooLong
      else .error .notFound
  | .below key =>
      if d.isFolder key then
        if Path.isTooLongName name then .error .nameTooLong else .ok (place.enter name)
      else if (d.find? key).isSome then .error .notADirectory
      else .error .notFound

def check (path : String) : Except FileError Unit :=
  if path.contains '\x00' then .error .nulInName
  else if path = "" then .error .notFound
  else if Path.isTooLong path then .error .nameTooLong
  else .ok ()

def place (d : Directory) (path : String) : Except FileError Place := do
  check path
  (Path.names path).foldlM d.follow (.start path)

def read (d : Directory) (path : String) : Except FileError ByteArray := do
  match ← d.place path with
  | .above => throw .isADirectory
  | .below key =>
      if d.isFolder key then throw .isADirectory
      match d.find? key with
      | some bytes => return bytes
      | none => throw .notFound

def insert (d : Directory) (key : List String) (bytes : ByteArray) : Directory :=
  { d with files := (key, bytes) :: d.files.filter (·.1 ≠ key) }

def write (d : Directory) (path : String) (bytes : ByteArray) : Except FileError Directory := do
  check path
  if Path.endsAsDirectory path then
    let _ ← d.place (Path.directoryPart path ++ ".")
    throw .isADirectory
  match ← d.place path with
  | .above => throw .isADirectory
  | .below key => if d.isFolder key then throw .isADirectory else return d.insert key bytes

def makeFolder (d : Directory) : Place → Directory
  | .above => d
  | .below key => if d.isFolder key then d else { d with folders := key :: d.folders }

def makeFolders (d : Directory) (place : Place) : List String → Directory × Place
  | [] => (d, place)
  | name :: rest =>
      let next := place.enter name
      (d.makeFolder next).makeFolders next rest

def install (d : Directory) (path : String) (bytes : ByteArray) : Directory :=
  let names := Path.names path
  let (d, place) := d.makeFolders (.start path) names.dropLast
  match place.enter (names.getLastD "") with
  | .above => d
  | .below key => d.insert key bytes

end Directory

end LispMachine

set_option autoImplicit false

namespace LispMachine.Path

def names (path : String) : List String := path.splitOn "/"

def isAbsolute (path : String) : Bool := path.startsWith "/"

def isStep (name : String) : Bool := name ≠ "" && name ≠ "."

def isTooLongName (name : String) : Bool := 255 < name.utf8ByteSize

def isTooLong (path : String) : Bool := 4096 ≤ path.utf8ByteSize

def fileName? (path : String) : Option String :=
  match (names path).reverse.find? isStep with
  | some ".." | none => none
  | some name => some name

-- A name without its last dot and what follows; a dot in front does not count.
def stemOf (name : String) : String :=
  let reversed := name.toList.reverse
  match reversed.dropWhile (· ≠ '.') with
  | [] | [_] => name
  | _ :: stem => String.ofList stem.reverse

def stem? (path : String) : Option String := (fileName? path).map stemOf

def extensionOf (name : String) : String :=
  String.ofList (name.toList.drop ((stemOf name).length + 1))

def directoryPart (path : String) : String :=
  match (names path).reverse.dropWhile (!isStep ·) with
  | [] => ""
  | _ :: before => String.join (before.reverse.map (· ++ "/"))

-- The path with as many characters taken off its end as the extension of its file name has. The
-- dot before them stays.
def withoutExtension (path : String) : String :=
  match fileName? path with
  | some name => String.ofList (path.toList.take (path.length - (extensionOf name).length))
  | none => path

-- The path with another extension. The old one is taken off first; if no file name is left,
-- because the rest names the parent, it stays at that.
def withExtension (path extension : String) : String :=
  let bare := withoutExtension path
  match stem? bare with
  | some stem => directoryPart bare ++ stem ++ "." ++ extension
  | none => bare

def endsAsDirectory (path : String) : Bool :=
  match (names path).reverse with
  | "" :: before => before.find? (· ≠ "") |>.any fun name => isStep name && name ≠ ".."
  | _ => false

end LispMachine.Path

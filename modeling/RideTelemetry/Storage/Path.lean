/-! Paths: names with slashes between them, and names with a stem and an extension. -/

namespace RideTelemetry.Storage

/-- The parts of a path between slashes. -/
def splitAtSlashes : List Char → List (List Char)
  | [] => [[]]
  | c :: rest =>
    if c = '/' then [] :: splitAtSlashes rest
    else match splitAtSlashes rest with
      | part :: parts => (c :: part) :: parts
      | [] => [[c]]

def components (path : String) : List String := (splitAtSlashes path.toList).map String.ofList

/-- Octets that a path may have. -/
def longestPath : Nat := 4095

/-- Octets that a name may have. -/
def longestName : Nat := 255

/-- A path that a file system takes up at all. -/
def isTakenUp (path : String) : Bool :=
  path.utf8ByteSize ≤ longestPath && !path.toList.contains '\x00'

/-- A path that sets out from the outermost directory. -/
def isAbsolute (path : String) : Bool := path.toList.head? == some '/'

/-- A name that stands for the directory it is looked up in. -/
def isHere (name : String) : Bool := name == "" || name == "."

/-- A name that stands for the directory around the one it is looked up in. -/
def isAround (name : String) : Bool := name == ".."

/-- A name that something can have. -/
def isProper (name : String) : Bool := !isHere name && !isAround name

/-- A path followed from another one. An absolute path does not care where it is followed from. -/
def join (path further : String) : String :=
  if isAbsolute further then further
  else if path == "" || path.endsWith "/" then path ++ further
  else path ++ "/" ++ further

def withoutSlashesAtEnd (path : String) : String :=
  String.ofList (path.toList.reverse.dropWhile (· == '/')).reverse

/-- The parts of a name before and after its last dot. A dot at the very front separates
nothing. -/
def stemAndExtension? (name : String) : Option (String × String) :=
  let backward := name.toList.reverse
  let extension := backward.takeWhile (· != '.')
  match backward.dropWhile (· != '.') with
  | _ :: stem =>
    if stem.isEmpty then none
    else some (String.ofList stem.reverse, String.ofList extension.reverse)
  | [] => none

/-- Drops the slashes and the steps that stay in place from the end of a path that is spelled
backward. -/
def dropTrailing : List Char → List Char
  | '/' :: rest => dropTrailing rest
  | '.' :: '/' :: rest => dropTrailing rest
  | path => path

/-- A path as what leads up to its last name, and that name. A path that ends with a step outward,
or has no name at all, has no last name. -/
def atLastName? (path : String) : Option (String × String) :=
  let backward := dropTrailing path.toList.reverse
  let name := String.ofList (backward.takeWhile (· != '/')).reverse
  if isProper name then some (String.ofList (backward.dropWhile (· != '/')).reverse, name)
  else none

/-- The extension of a path's last name. -/
def extension? (path : String) : Option String := do
  let (_, name) ← atLastName? path
  let (_, extension) ← stemAndExtension? name
  return extension

/-- The path that ends with its last name under another extension. Without a last name it stays as
it is. -/
def withExtension (path extension : String) : String :=
  match atLastName? path with
  | none => path
  | some (before, name) =>
    before ++ ((stemAndExtension? name).map (·.1)).getD name ++ "." ++ extension

end RideTelemetry.Storage

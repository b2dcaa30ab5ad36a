import RideTelemetry.Storage.Path

/-! Files and directories as a value: following a path from a directory, and the changes that a file
system makes. -/

namespace RideTelemetry.Storage

inductive Entry where
  | file (octets : List UInt8)
  | directory (entries : List (String × Entry))

/-- What a directory holds. -/
abbrev Entries := List (String × Entry)

/-- Why nothing is found at a path. -/
inductive Stop where
  /-- Nothing stands there. -/
  | missing
  /-- The path cannot be followed: a file stands in the way, or it is too long or misspelled. -/
  | blocked
  deriving DecidableEq

/-- What is found at a path. -/
abbrev Lookup := Except Stop Entry

namespace Entries

def find? (entries : Entries) (name : String) : Option Entry :=
  (List.find? (·.1 == name) entries).map (·.2)

/-- The entries with one of this name, in the place of the one that had it or behind all. -/
def put (entries : Entries) (name : String) (entry : Entry) : Entries :=
  if entries.any (·.1 == name) then
    entries.map fun one => if one.1 == name then (name, entry) else one
  else entries ++ [(name, entry)]

/-- The entries without the one of this name. -/
def remove (entries : Entries) (name : String) : Entries := entries.filter (·.1 != name)

end Entries

/-- A directory in a tree, with the way back out of it: the directories around it, the nearest
first, each with the name of what was entered there. -/
structure Spot where
  entries : Entries
  around : List (String × Entries)

namespace Spot

/-- The directory around. Nothing lies around the outermost one, so the step stays in it. -/
def outward (spot : Spot) : Spot :=
  match spot.around with
  | [] => spot
  | (name, outer) :: around => ⟨Entries.put outer name (.directory spot.entries), around⟩

/-- What the outermost directory holds. -/
def outermost (spot : Spot) : Entries :=
  spot.around.foldl (fun inner (name, outer) => Entries.put outer name (.directory inner))
    spot.entries

/-- What stands under a name. -/
def find (spot : Spot) (name : String) : Lookup :=
  if longestName < name.utf8ByteSize then .error .blocked
  else match Entries.find? spot.entries name with
    | some entry => .ok entry
    | none => .error .missing

/-- A step of a path. -/
def step (spot : Spot) (name : String) : Except Stop Spot :=
  if isHere name then .ok spot
  else if isAround name then .ok spot.outward
  else match spot.find name with
    | .ok (.directory entries) => .ok ⟨entries, (name, spot.entries) :: spot.around⟩
    | .ok (.file _) => .error .blocked
    | .error stop => .error stop

/-- The steps of a path up to its last name: the directory that they lead to, and that name. -/
def approach (spot : Spot) (path : String) : Except Stop (Spot × String) :=
  if path == "" then .error .missing
  else if !isTakenUp path then .error .blocked
  else
    let names := components path
    let start := if isAbsolute path then ⟨spot.outermost, []⟩ else spot
    (names.dropLast.foldlM step start).map fun holder => (holder, names.getLastD "")

/-- What stands at a path. -/
def lookup (spot : Spot) (path : String) : Lookup :=
  match spot.approach path with
  | .error stop => .error stop
  | .ok (holder, name) =>
    if isProper name then holder.find name
    else (holder.step name).map fun place => .directory place.entries

/-- Changes what stands at a path that ends with a name. `change` sees it and answers with what is
to stand there, or refuses. The outcome is the whole tree. -/
def update (spot : Spot) (path : String) (change : Option Entry → Option (Option Entry)) :
    Option Entries :=
  match spot.approach path with
  | .error _ => none
  | .ok (holder, name) =>
    if !isProper name || longestName < name.utf8ByteSize then none
    else (change (Entries.find? holder.entries name)).map fun
      | some entry => outermost ⟨Entries.put holder.entries name entry, holder.around⟩
      | none => outermost ⟨Entries.remove holder.entries name, holder.around⟩

/-- Writes a file, new or over an old one. -/
def write (spot : Spot) (path : String) (octets : List UInt8) : Option Entries :=
  spot.update path fun
    | some (.directory _) => none
    | _ => some (some (.file octets))

/-- Creates an empty directory where there is nothing. Its name may be followed by slashes. -/
def makeDirectory (spot : Spot) (path : String) : Option Entries :=
  if isTakenUp path then
    spot.update (withoutSlashesAtEnd path) fun
      | some _ => none
      | none => some (some (.directory []))
  else none

/-- Removes a file. -/
def removeFile (spot : Spot) (path : String) : Option Entries :=
  spot.update path fun
    | some (.file _) => some none
    | _ => none

/-- Removes a directory with all that is in it. -/
def removeDirectory (spot : Spot) (path : String) : Option Entries :=
  spot.update path fun
    | some (.directory _) => some none
    | _ => none

end Spot

end RideTelemetry.Storage

import RideTelemetry.Decimal.Text
import RideTelemetry.Decimal.Reading
import RideTelemetry.Toml.Document

/-! Settings as a tree that is laid over by one source after another, the later one winning key by
key. -/

namespace RideTelemetry.Settings

inductive Tree where
  /-- Made room for, but never set. -/
  | unset
  | text (value : String)
  | integer (value : Int)
  | number (value : Double)
  | boolean (value : Bool)
  | list (items : List Tree)
  | table (entries : List (String × Tree))

namespace Tree

mutual

/-- A value of a configuration text; moments are kept as text. -/
def ofValue : Toml.Value → Tree
  | .text value => .text value
  | .integer value => .integer value
  | .number value => .number value
  | .boolean value => .boolean value
  | .moment spelling => .text spelling
  | .array items => .list (ofItems items)
  | .table entries => .table (ofEntries entries)

def ofItems : List Toml.Value → List Tree
  | [] => []
  | item :: rest => ofValue item :: ofItems rest

def ofEntries : List (String × Toml.Value) → List (String × Tree)
  | [] => []
  | (key, value) :: rest => (key, ofValue value) :: ofEntries rest

end

def entries : Tree → List (String × Tree)
  | .table entries => entries
  | _ => []

def items : Tree → List Tree
  | .list items => items
  | _ => []

/-- What stands under a key. -/
def find? (entries : List (String × Tree)) (key : String) : Option Tree :=
  (entries.find? (·.1 == key)).map (·.2)

/-- Changes what stands under a key; a missing key counts as unset. -/
def alter (change : Tree → Tree) (key : String) : List (String × Tree) → List (String × Tree)
  | [] => [(key, change .unset)]
  | entry :: rest =>
    if entry.1 == key then (key, change entry.2) :: rest else entry :: alter change key rest

mutual

/-- Lays a tree over another: the entries of a table are merged into what was there, anything else
replaces it. A table without entries only makes a table of what was never set. -/
def overlay (under : Tree) : Tree → Tree
  | .table [] =>
    match under with
    | .unset => .table []
    | under => under
  | .table (entry :: rest) => .table (overlayEntries under.entries (entry :: rest))
  | tree => tree

def overlayEntries (under : List (String × Tree)) :
    List (String × Tree) → List (String × Tree)
  | [] => under
  | (key, tree) :: rest => overlayEntries (alter (fun old => old.overlay tree) key under) rest

end

/-- One step from a tree to a part of it. A negative index counts from the end. -/
inductive Step where
  | key (name : String)
  | index (position : Int)

/-- Changes the item at an index; the list grows as far as it takes, at its start for an index
before it. -/
def alterItem (change : Tree → Tree) (position : Int) (items : List Tree) : List Tree :=
  let place := if position < 0 then position + items.length else position
  if place < 0 then
    change .unset :: List.replicate ((-place).toNat - 1) .unset ++ items
  else
    let grown := items ++ List.replicate (place.toNat + 1 - items.length) .unset
    grown.modify place.toNat change

/-- Changes what stands at the end of a path; what is in the way becomes a table or a list. -/
def alterAt (change : Tree → Tree) : List Step → Tree → Tree
  | [], tree => change tree
  | .key name :: path, tree => .table (alter (alterAt change path) name tree.entries)
  | .index position :: path, tree => .list (alterItem (alterAt change path) position tree.items)

end Tree

end RideTelemetry.Settings

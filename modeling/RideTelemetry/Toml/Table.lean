import RideTelemetry.Toml.Value

/-! Tables under construction. What was said by which kind of line decides what later lines may
still add. -/

namespace RideTelemetry.Toml

inductive Node where
  /-- A value, closed to additions. -/
  | value (value : Value)
  /-- A table. It is `implied` while only longer paths have named it, and `dotted` if it came from
  the key of an entry. -/
  | table (implied dotted : Bool) (entries : List (String × Node))
  /-- A list of tables, the latest first; only that one takes additions. -/
  | tables (items : List (List (String × Node)))

abbrev Entries := List (String × Node)

namespace Entries

def find? (entries : Entries) (key : String) : Option Node :=
  (List.find? (fun entry => entry.1 == key) entries).map (·.2)

/-- The entries with one key set. -/
def put (entries : Entries) (key : String) (node : Node) : Entries :=
  match entries with
  | [] => [(key, node)]
  | entry :: rest =>
    if entry.1 == key then (key, node) :: rest else entry :: put rest key node

/-- Changes the table at a path. A path in an entry's key (`inKey`) creates dotted tables and passes
no table that a header has named; the path of a header passes all open tables. Both go on in the
latest table of a list. The change also sees whether its table is implied. -/
def edit (inKey : Bool) (change : Bool → Entries → Option Entries) :
    List String → Bool → Entries → Option Entries
  | [], implied, entries => change implied entries
  | key :: path, _, entries =>
    match find? entries key with
    | none => (edit inKey change path true []).map fun inner =>
      put entries key (.table true inKey inner)
    | some (.table implied dotted inner) =>
      if inKey && !implied then none
      else (edit inKey change path implied inner).map fun inner =>
        put entries key (.table implied dotted inner)
    | some (.tables (latest :: earlier)) =>
      (edit inKey change path false latest).map fun inner =>
        put entries key (.tables (inner :: earlier))
    | some _ => none

/-- Adds a value under a dotted key. A key is given once, and a longer key adds nothing to a table
that a header has named. -/
def addValue (path : List String) (key : String) (value : Value) :
    Bool → Entries → Option Entries :=
  edit true (fun implied entries =>
    if (!path.isEmpty && !implied) || (find? entries key).isSome then none
    else some (put entries key (.value value))) path

/-- Opens a table by its header, once. -/
def openTable (key : String) (entries : Entries) : Option Entries :=
  match find? entries key with
  | none => some (put entries key (.table false false []))
  | some (.table true false inner) => some (put entries key (.table false false inner))
  | some _ => none

/-- Opens the next table of a list. -/
def openNext (key : String) (entries : Entries) : Option Entries :=
  match find? entries key with
  | none => some (put entries key (.tables [[]]))
  | some (.tables items) => some (put entries key (.tables ([] :: items)))
  | some _ => none

end Entries

mutual

def Node.finish : Node → Value
  | .value value => value
  | .table _ _ entries => .table (finishEntries entries)
  | .tables items => .array (finishItems items).reverse

def finishEntries : List (String × Node) → List (String × Value)
  | [] => []
  | (key, node) :: rest => (key, node.finish) :: finishEntries rest

def finishItems : List (List (String × Node)) → List Value
  | [] => []
  | item :: rest => .table (finishEntries item) :: finishItems rest

end

end RideTelemetry.Toml

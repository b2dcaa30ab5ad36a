import RideTelemetry.Analysis
import RideTelemetry.Record.Decode
import RideTelemetry.Storage.Tree
import RideTelemetry.Text.Order

/-! Sessions stored as files of one directory: the name of a file is the session's id, a dot and the
extension. -/

namespace RideTelemetry.Storage

structure SessionStore where
  /-- The data directory as it was named. -/
  path : String
  /-- Extension of the session files, without a dot at its front. -/
  extension : String
  /-- What stands at a path. -/
  lookup : String → Lookup

/-- Why the store cannot answer. -/
inductive Fault where
  | directoryUnreadable (path : String)
  | fileUnreadable (path : String)
  | undecodable (id : String) (fault : Record.DecodeFault)

def Fault.message : Fault → String
  | .directoryUnreadable path => "Failed to read data directory " ++ path
  | .fileUnreadable path => "Failed to read session file " ++ path
  | .undecodable id fault => "Failed to decode session " ++ id ++ ": " ++ fault.message

namespace SessionStore

/-- A store; dots at the front of the extension are dropped. -/
def of (path extension : String) (lookup : String → Lookup) : SessionStore where
  path := path
  extension := String.ofList (extension.toList.dropWhile (· == '.'))
  lookup := lookup

/-- An id names a file of the directory itself and of no other one. -/
def accepts (id : String) : Bool :=
  id != "" && id != "." && id != ".." && !id.toList.any fun c => c == '/' || c == '\\'

/-- The path of a session's file, none for an id that is refused. -/
def filePath? (store : SessionStore) (id : String) : Option String :=
  if accepts id then some (join store.path (id ++ "." ++ store.extension)) else none

/-- The id in the name of a session file. -/
def idOf? (store : SessionStore) (name : String) : Option String := do
  let (stem, extension) ← stemAndExtension? name
  if extension == store.extension then some stem else none

def isFile : Entry → Bool
  | .file _ => true
  | .directory _ => false

/-- Ids of the stored sessions, in order. -/
def ids (store : SessionStore) : Except Fault (List String) :=
  match store.lookup store.path with
  | .ok (.directory entries) =>
    let files := entries.filter fun entry => isFile entry.2
    .ok ((files.filterMap fun entry => store.idOf? entry.1).mergeSort Text.octetsLe)
  | _ => .error (.directoryUnreadable store.path)

/-- The record of a session, `none` if there is no such session. -/
def load (store : SessionStore) (id : String) : Except Fault (Option (Record Double)) :=
  match store.filePath? id with
  | none => .ok none
  | some path =>
    match store.lookup path with
    | .error .missing => .ok none
    | .ok (.file octets) =>
      match Record.decode octets with
      | .ok session => .ok (some session)
      | .error fault => .error (.undecodable id fault)
    | _ => .error (.fileUnreadable path)

/-- The analysis of a session, `none` if there is no such session. -/
def analyse (store : SessionStore) (range : TimeRange Double) (threshold : Double) (id : String) :
    Except Fault (Option (SessionAnalysis Double)) :=
  (store.load id).map fun session => session.map (·.analyse range threshold)

end SessionStore

end RideTelemetry.Storage

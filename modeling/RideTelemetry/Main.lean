import RideTelemetry.Outcome
import RideTelemetry.Settings.File

/-! The program: arguments, files and environment variables come in, lines and a complaint go
out. -/

namespace RideTelemetry.Program

open Storage (Entry Lookup)

/-- A file among the entries of a directory stays unread; what is no file is told apart from it. -/
def entryOf (found : IO.FS.DirEntry) : IO (String × Entry) := do
  let known ← found.path.symlinkMetadata
  return (found.fileName, if known.type == .file then .file [] else .directory [])

/-- What stands at a path, as far as it can be read. -/
def lookup (path : String) : IO Lookup := do
  if path == "" then return .error .missing
  try
    let place := (← IO.currentDir) / path
    if ← place.isDir then
      let entries ← (← place.readDir).toList.mapM entryOf
      return .ok (.directory entries)
    else
      let octets ← IO.FS.readBinFile place
      return .ok (.file octets.toList)
  catch
    | .noFileOrDirectory .. => return .error .missing
    | _ => return .error .blocked

/-- What stands at each of these paths; others are not asked for. -/
def lookups (paths : List String) : IO (String → Lookup) := do
  let found ← paths.mapM fun path => do return (path, ← lookup path)
  return fun path => ((found.find? (·.1 == path)).map (·.2)).getD (.error .missing)

/-- The environment variables of this process. -/
def environment : IO (List (String × String)) := do
  match ← lookup "/proc/self/environ" with
  | .ok (.file octets) =>
    let listed := (String.fromUTF8? ⟨octets.toArray⟩).getD ""
    return (listed.splitOn "\x00").map fun one =>
      (String.ofList (one.toList.takeWhile (· != '=')),
        String.ofList ((one.toList.dropWhile (· != '=')).drop 1))
  | _ => return []

def fail (message : String) (code : UInt32) : IO UInt32 := do
  IO.eprintln message
  return code

def run (invocation : Invocation) : IO UInt32 := do
  let path := Storage.join (← IO.currentDir).toString invocation.config
  let file := Settings.fileOctets? path (← lookups [path, Settings.extended path])
  match Settings.loadOctets? file (← environment) with
  | none => fail "Error: the settings cannot be read" 1
  | some settings =>
    let { command, .. } := invocation
    let paths := command.paths (settings.store fun _ => .error .missing)
    let store := settings.store (← lookups paths)
    let outcome := command.outcome store settings.threshold
    outcome.output.forM fun line => IO.println line
    match outcome.complaint? with
    | none => return 0
    | some complaint => fail ("Error: " ++ complaint) 1

end RideTelemetry.Program

open RideTelemetry in
def main (words : List String) : IO UInt32 := do
  match CommandLine.parse words with
  | .ok invocation => Program.run invocation
  | .error .help =>
    IO.println CommandLine.Refusal.help.message
    return 0
  | .error refusal => Program.fail refusal.message 2

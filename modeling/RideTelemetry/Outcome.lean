import RideTelemetry.CommandLine
import RideTelemetry.Report
import RideTelemetry.Settings

/-! What a command makes of the stored sessions: the lines it prints and the complaint it ends
with. -/

namespace RideTelemetry

open Storage (SessionStore)

inductive Outcome where
  | listed (ids : Except Storage.Fault (List String))
  | analysed (report : Report) (layout : Json.Layout)

/-- The store that settings name, given what stands at each path. -/
def Settings.store (settings : Settings) (lookup : String → Storage.Lookup) : SessionStore :=
  .of settings.dataDirectory settings.extension lookup

/-- The paths that a command looks up. -/
def Command.paths (command : Command) (store : SessionStore) : List String :=
  match command with
  | .list => [store.path]
  | .filter ids _ _ _ => ids.filterMap store.filePath?

/-- Carries a command out. -/
def Command.outcome (command : Command) (store : SessionStore) (threshold : Double) : Outcome :=
  match command with
  | .list => .listed store.ids
  | .filter ids start stop pretty =>
    .analysed (.ofIds (store.analyse ⟨start, stop⟩ threshold) ids)
      (if pretty then .indented else .compact)

namespace Outcome

/-- What is printed: an id a line, or the report as one text. -/
def output : Outcome → List String
  | .listed (.ok ids) => ids
  | .listed (.error _) => []
  | .analysed report layout => [report.document.written layout]

/-- Why the command failed, if it did. -/
def complaint? : Outcome → Option String
  | .listed (.ok _) => none
  | .listed (.error fault) => some fault.message
  | .analysed report _ => report.complaint?

end Outcome

end RideTelemetry

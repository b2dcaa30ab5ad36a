import RideTelemetry.Json.Document
import RideTelemetry.Storage.SessionStore
import RideTelemetry.Text.Order

/-! Analyses of several sessions in one document, by session id. -/

namespace RideTelemetry

/-- What became of the requested sessions. A session that is missing or failed has no analysis. -/
structure Report where
  /-- Every requested id once, in order. -/
  sessions : List (String × Option (SessionAnalysis Double))
  /-- Requests that failed; an id that was requested twice counts twice. -/
  failures : Nat
  requests : Nat

namespace Report

open Json (Document)
open Json.Document (numbers orNull)

/-- The analysis behind an outcome, none for a failure. -/
def settled {ε α : Type} : Except ε (Option α) → Option α
  | .ok found => found
  | .error _ => none

def failed {ε α : Type} : Except ε α → Bool
  | .ok _ => false
  | .error _ => true

/-- The members with a value entered under a name. Names ascend, and a value that stands under the
name gives way. -/
def enter {α : Type} (name : String) (value : α) : List (String × α) → List (String × α)
  | [] => [(name, value)]
  | (other, held) :: rest =>
    if other = name then (name, value) :: rest
    else if Text.octetsLe name other then (name, value) :: (other, held) :: rest
    else (other, held) :: enter name value rest

/-- The report on answered requests, in the order of the requests. -/
def ofAnswers {ε : Type}
    (answers : List (String × Except ε (Option (SessionAnalysis Double)))) : Report where
  sessions := answers.foldl (fun sessions (id, answer) => enter id (settled answer) sessions) []
  failures := answers.countP fun (_, answer) => failed answer
  requests := answers.length

/-- The report on a list of ids, each analysed on its own. -/
def ofIds {ε : Type} (analyse : String → Except ε (Option (SessionAnalysis Double)))
    (ids : List String) : Report :=
  .ofAnswers (ids.zip (ids.map analyse))

/-- Said after the report if any request failed. -/
def complaint? (report : Report) : Option String :=
  if report.failures = 0 then none
  else some (toString report.failures ++ " of " ++ toString report.requests ++
    " sessions could not be analyzed")

def table (rows : List (List Double)) : Document := .list (rows.map numbers)

def travelDocument (histogram : TravelHistogram Double) : Document :=
  .object
    [("avg_mm", .number histogram.summary.average),
      ("avg_percent", .number histogram.summary.averagePercent),
      ("bin_widths_percent", numbers histogram.barWidths),
      ("bottomouts", .natural histogram.bottomouts),
      ("max_mm", .number histogram.summary.maximum),
      ("max_percent", .number histogram.summary.maximumPercent),
      ("p95_mm", .number histogram.summary.p95),
      ("p95_percent", .number histogram.summary.p95Percent),
      ("time_percent", numbers histogram.timePercent),
      ("travel_mids_mm", numbers histogram.middles),
      ("travel_mids_percent", numbers histogram.middlesPercent)]

def curveDocument (curve : NormalCurve Double) : Document :=
  .object [("pdf", numbers curve.density), ("velocity", numbers curve.velocity)]

def summaryDocument (summary : VelocitySummary Double) : Document :=
  .object
    [("avg_compression", orNull .number summary.compression.average),
      ("avg_rebound", orNull .number summary.rebound.average),
      ("max_compression", orNull .number summary.compression.maximum),
      ("max_rebound", orNull .number summary.rebound.maximum),
      ("p95_compression", orNull .number summary.compression.p95),
      ("p95_rebound", orNull .number summary.rebound.p95)]

def velocityDocument (histogram : VelocityHistogram Double) : Document :=
  .object
    [("coarse", table histogram.coarse),
      ("coarse_centers", numbers histogram.coarseCentres),
      ("coarse_largest_bin", .number histogram.coarseLargestBin),
      ("fine", table histogram.fine),
      ("fine_centers", numbers histogram.fineCentres),
      ("fine_largest_bin", .number histogram.fineLargestBin),
      ("fine_normal", curveDocument histogram.fineNormal),
      ("normal", curveDocument histogram.normal),
      ("stats", summaryDocument histogram.summary),
      ("travel_divider", .natural histogram.travelDivider)]

def bandsDocument (bands : SpeedBands Double) : Document :=
  .object
    [("hsc", .number bands.highCompression), ("hsr", .number bands.highRebound),
      ("lsc", .number bands.lowCompression), ("lsr", .number bands.lowRebound)]

def spectrumDocument (spectrum : PowerSpectrum Double) : Document :=
  .object [("freqs", numbers spectrum.frequencies), ("spectrum", numbers spectrum.powers)]

def wheelDocument (wheel : WheelAnalysis Double) : Document :=
  .object
    [("fft", spectrumDocument wheel.spectrum), ("thist", travelDocument wheel.travel),
      ("vbands", bandsDocument wheel.bands), ("vhist", velocityDocument wheel.velocity)]

def seriesDocument (series : BalanceSeries Double) : Document :=
  .object
    [("travel", numbers series.travel),
      ("trend", .list (series.trend.map (orNull .number))),
      ("velocity", numbers series.velocity)]

def balanceDocument (balance : Balance Double) : Document :=
  .object
    [("front", seriesDocument balance.front), ("range_end", .number balance.rangeEnd),
      ("rear", seriesDocument balance.rear)]

def analysisDocument (analysis : SessionAnalysis Double) : Document :=
  .object
    [("balance", orNull (fun (both : BalanceAnalysis Double) =>
        .object [("compression", balanceDocument both.compression),
          ("rebound", balanceDocument both.rebound)]) analysis.balance),
      ("front", orNull wheelDocument analysis.front),
      ("rear", orNull wheelDocument analysis.rear)]

/-- A member for each session, null where it has no analysis. -/
def members (report : Report) : List (String × Document) :=
  report.sessions.map fun (id, analysis) => (id, orNull analysisDocument analysis)

/-- The report as a document; names of members ascend at every level. -/
def document (report : Report) : Document := .object report.members

end Report

end RideTelemetry

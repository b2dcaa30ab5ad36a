import RideTelemetry.Json.Document
import RideTelemetry.Record

/-! The document that stores a record. Every field is written, also where it has its default. -/

namespace RideTelemetry

open Json (Document)
open Json.Document (naturals numbers)

def StrokeStat.document (summary : StrokeStat Double) : Document :=
  .object
    [("SumTravel", .number summary.sumTravel), ("MaxTravel", .number summary.maxTravel),
      ("P95Travel", .number summary.p95Travel), ("SumVelocity", .number summary.sumVelocity),
      ("MaxVelocity", .number summary.maxVelocity),
      ("P95VelocityCompression", .number summary.p95VelocityCompression),
      ("P95VelocityRebound", .number summary.p95VelocityRebound),
      ("Bottomouts", .natural summary.bottomouts), ("Count", .natural summary.count)]

def Stroke.document (stroke : Stroke Double) : Document :=
  .object
    [("Start", .natural stroke.first), ("End", .natural stroke.last),
      ("Stat", stroke.stat.document), ("DigitizedTravel", naturals stroke.digitizedTravel),
      ("DigitizedVelocity", naturals stroke.digitizedVelocity),
      ("FineDigitizedVelocity", naturals stroke.fineDigitizedVelocity)]

def Strokes.document (strokes : Strokes Double) : Document :=
  .object
    [("Compressions", .list (strokes.compressions.map Stroke.document)),
      ("Rebounds", .list (strokes.rebounds.map Stroke.document))]

def Suspension.document (suspension : Suspension Double) : Document :=
  .object
    [("Present", .boolean suspension.present), ("Travel", numbers suspension.travel),
      ("Velocity", numbers suspension.velocity), ("Strokes", suspension.strokes.document),
      ("TravelBins", numbers suspension.travelBins),
      ("VelocityBins", numbers suspension.velocityBins),
      ("FineVelocityBins", numbers suspension.fineVelocityBins)]

def Linkage.document (linkage : Linkage Double) : Document :=
  .object
    [("Name", .text linkage.name), ("HeadAngle", .number linkage.headAngle),
      ("MaxFrontStroke", .number linkage.maxFrontStroke),
      ("MaxRearStroke", .number linkage.maxRearStroke),
      ("MaxFrontTravel", .number linkage.maxFrontTravel),
      ("MaxRearTravel", .number linkage.maxRearTravel)]

def Airtime.document (airtime : Airtime Double) : Document :=
  .object [("Start", .number airtime.start), ("End", .number airtime.stop)]

def Record.document (session : Record Double) : Document :=
  .object
    [("Name", .text session.name), ("Version", .natural session.version),
      ("SampleRate", .natural session.sampleRate), ("Timestamp", .integer session.timestamp),
      ("Front", session.front.document), ("Rear", session.rear.document),
      ("Linkage", session.linkage.document),
      ("Airtimes", .list (session.airtimes.map Airtime.document))]

/-- The octets that store a record. -/
def Record.encode (session : Record Double) : List UInt8 :=
  (session.document.written .compact).toUTF8.toList

end RideTelemetry

import RideTelemetry.Json.Record
import RideTelemetry.Record

/-! The stored form of a record: the names of its fields, what may be left out or `null`, and what
takes its place then. -/

namespace RideTelemetry.Record.Format

open Scalar (zero)
open Json (RecordField natural32 natural64 integer64 real boolean text list orNull)

/-- A field that takes its default when it is left out. -/
def optional {ρ α : Type} (name : String) (read : Json.Reader α) (store : α → ρ → ρ) :
    RecordField ρ :=
  .of name false read store

/-- A field that takes its default when it is left out or `null`. -/
def nullable {ρ α : Type} (name : String) (absent : α) (read : Json.Reader α)
    (store : α → ρ → ρ) : RecordField ρ :=
  .of name false (orNull absent read) store

def required {ρ α : Type} (name : String) (read : Json.Reader α) (store : α → ρ → ρ) :
    RecordField ρ :=
  .of name true read store

def blankStat : StrokeStat Double := ⟨zero, zero, zero, zero, zero, zero, zero, 0, 0⟩

def statFields : List (RecordField (StrokeStat Double)) :=
  [optional "SumTravel" real fun value summary => { summary with sumTravel := value },
    optional "MaxTravel" real fun value summary => { summary with maxTravel := value },
    optional "P95Travel" real fun value summary => { summary with p95Travel := value },
    optional "SumVelocity" real fun value summary => { summary with sumVelocity := value },
    optional "MaxVelocity" real fun value summary => { summary with maxVelocity := value },
    optional "P95VelocityCompression" real fun value summary =>
      { summary with p95VelocityCompression := value },
    optional "P95VelocityRebound" real fun value summary =>
      { summary with p95VelocityRebound := value },
    optional "Bottomouts" natural32 fun value summary => { summary with bottomouts := value },
    optional "Count" natural64 fun value summary => { summary with count := value }]

def stat : Json.Reader (StrokeStat Double) := Json.record "StrokeStat" blankStat statFields

def blankStroke : Stroke Double := ⟨0, 0, blankStat, [], [], []⟩

def strokeFields : List (RecordField (Stroke Double)) :=
  [required "Start" natural64 fun value one => { one with first := value },
    required "End" natural64 fun value one => { one with last := value },
    nullable "Stat" blankStat stat fun value one => { one with stat := value },
    nullable "DigitizedTravel" [] (list natural64) fun value one =>
      { one with digitizedTravel := value },
    nullable "DigitizedVelocity" [] (list natural64) fun value one =>
      { one with digitizedVelocity := value },
    nullable "FineDigitizedVelocity" [] (list natural64) fun value one =>
      { one with fineDigitizedVelocity := value }]

def stroke : Json.Reader (Stroke Double) := Json.record "Stroke" blankStroke strokeFields

def blankStrokes : Strokes Double := ⟨[], []⟩

def strokesFields : List (RecordField (Strokes Double)) :=
  [nullable "Compressions" [] (list stroke) fun value both =>
      { both with compressions := value },
    nullable "Rebounds" [] (list stroke) fun value both => { both with rebounds := value }]

def strokes : Json.Reader (Strokes Double) := Json.record "Strokes" blankStrokes strokesFields

def blankSuspension : Suspension Double := ⟨false, [], [], blankStrokes, [], [], []⟩

def suspensionFields : List (RecordField (Suspension Double)) :=
  [optional "Present" boolean fun value wheel => { wheel with present := value },
    nullable "Travel" [] (list real) fun value wheel => { wheel with travel := value },
    nullable "Velocity" [] (list real) fun value wheel => { wheel with velocity := value },
    nullable "Strokes" blankStrokes strokes fun value wheel => { wheel with strokes := value },
    nullable "TravelBins" [] (list real) fun value wheel => { wheel with travelBins := value },
    nullable "VelocityBins" [] (list real) fun value wheel => { wheel with velocityBins := value },
    nullable "FineVelocityBins" [] (list real) fun value wheel =>
      { wheel with fineVelocityBins := value }]

def suspension : Json.Reader (Suspension Double) :=
  Json.record "Suspension" blankSuspension suspensionFields

def blankLinkage : Linkage Double := ⟨"", zero, zero, zero, zero, zero⟩

def linkageFields : List (RecordField (Linkage Double)) :=
  [nullable "Name" "" text fun value frame => { frame with name := value },
    optional "HeadAngle" real fun value frame => { frame with headAngle := value },
    optional "MaxFrontStroke" real fun value frame => { frame with maxFrontStroke := value },
    optional "MaxRearStroke" real fun value frame => { frame with maxRearStroke := value },
    optional "MaxFrontTravel" real fun value frame => { frame with maxFrontTravel := value },
    optional "MaxRearTravel" real fun value frame => { frame with maxRearTravel := value }]

def linkage : Json.Reader (Linkage Double) := Json.record "Linkage" blankLinkage linkageFields

def blankAirtime : Airtime Double := ⟨zero, zero⟩

def airtimeFields : List (RecordField (Airtime Double)) :=
  [required "Start" real fun value flight => { flight with start := value },
    required "End" real fun value flight => { flight with stop := value }]

def airtime : Json.Reader (Airtime Double) := Json.record "Airtime" blankAirtime airtimeFields

def blank : Record Double := ⟨"", 0, 0, 0, blankSuspension, blankSuspension, blankLinkage, []⟩

def fields : List (RecordField (Record Double)) :=
  [nullable "Name" "" text fun value session => { session with name := value },
    optional "Version" natural32 fun value session => { session with version := value },
    required "SampleRate" natural32 fun value session => { session with sampleRate := value },
    optional "Timestamp" integer64 fun value session => { session with timestamp := value },
    nullable "Front" blankSuspension suspension fun value session =>
      { session with front := value },
    nullable "Rear" blankSuspension suspension fun value session =>
      { session with rear := value },
    nullable "Linkage" blankLinkage linkage fun value session =>
      { session with linkage := value },
    nullable "Airtimes" [] (list airtime) fun value session => { session with airtimes := value }]

def record : Json.Reader (Record Double) := Json.record "Telemetry" blank fields

end RideTelemetry.Record.Format

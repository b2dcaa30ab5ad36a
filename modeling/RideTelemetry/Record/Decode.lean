import RideTelemetry.Record.Format
import RideTelemetry.Record.Validation

/-! Reading a stored record. -/

namespace RideTelemetry.Record

/-- Why octets are not a valid record. -/
inductive DecodeFault where
  | malformed (fault : Json.Fault)
  | invalid (fault : Fault)

def DecodeFault.message : DecodeFault → String
  | .malformed fault => "malformed telemetry record: " ++ fault.message
  | .invalid fault => fault.message

/-- The record that the octets hold, checked only after all of it was read. -/
def decode (octets : List UInt8) : Except DecodeFault (Record Double) :=
  match Format.record octets with
  | .error fault => .error (.malformed fault)
  | .ok taken =>
    match Json.finished taken with
    | .error fault => .error (.malformed fault)
    | .ok session => session.validate.mapError .invalid

end RideTelemetry.Record

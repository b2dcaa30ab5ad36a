/-! The order of texts. -/

namespace RideTelemetry.Text

/-- Texts in the order of the octets that encode them. -/
def octetsLe (left right : String) : Bool :=
  decide (left.toUTF8.toList ≤ right.toUTF8.toList)

end RideTelemetry.Text

import RideTelemetry.Analysis
import RideTelemetry.CommandLine
import RideTelemetry.Double
import RideTelemetry.Main
import RideTelemetry.Outcome
import RideTelemetry.Proofs.Exact
import RideTelemetry.Proofs.Reading
import RideTelemetry.Proofs.Tally
import RideTelemetry.Proofs.TravelShares
import RideTelemetry.Proofs.Words
import RideTelemetry.Record.Decode
import RideTelemetry.Record.Document
import RideTelemetry.Report
import RideTelemetry.Settings
import RideTelemetry.Settings.File
import RideTelemetry.Storage.SessionStore
import RideTelemetry.Proofs.Decoding
import RideTelemetry.Proofs.FirstFault
import RideTelemetry.Proofs.Cropping
import RideTelemetry.Proofs.CoarseTable
import RideTelemetry.Proofs.FineAxis
import RideTelemetry.Proofs.TravelAxis
import RideTelemetry.Proofs.Clamping
import RideTelemetry.Proofs.Checked.Analysis
import RideTelemetry.Proofs.Listing
import RideTelemetry.Proofs.MassBalance
import RideTelemetry.Proofs.Spelling.Outcome
import RideTelemetry.Proofs.Spelling.Numbers
import RideTelemetry.Proofs.Spelling.Texts
import RideTelemetry.Proofs.Spelling.Skipping
import RideTelemetry.Proofs.Spelling.Values
import RideTelemetry.Proofs.Spelling.Records
import RideTelemetry.Proofs.Spelling.Format
import RideTelemetry.Proofs.Spelling.Members
import RideTelemetry.Proofs.Respelling
import RideTelemetry.Proofs.Spelling.Forms
import RideTelemetry.Proofs.Spelling.Writing
import RideTelemetry.Proofs.StructForms
import RideTelemetry.Proofs.Spelling.Documents
import RideTelemetry.Proofs.RoundTrip
import RideTelemetry.Proofs.Wheels
import RideTelemetry.Proofs.Windows
import RideTelemetry.Proofs.StrokeOrder
import RideTelemetry.Proofs.Reports
import RideTelemetry.Proofs.WindowTravel
import RideTelemetry.Proofs.SpeedShares
import RideTelemetry.Proofs.Joining
import RideTelemetry.Proofs.LowSpeedBand
import RideTelemetry.Proofs.DoubleSigns
import RideTelemetry.Proofs.Mirror
import RideTelemetry.Proofs.Thresholds
import RideTelemetry.Proofs.Transforms
import RideTelemetry.Proofs.SpectrumGrid
import RideTelemetry.Proofs.ExactTransform
import RideTelemetry.Proofs.PowerBalance
import RideTelemetry.Proofs.RideHeight
import RideTelemetry.Proofs.LeastSquares
import RideTelemetry.Proofs.SortedDoubles
import RideTelemetry.Proofs.PeakOrder
import RideTelemetry.Proofs.SharedAxis
import RideTelemetry.Proofs.Quantiles
import RideTelemetry.Proofs.SummaryBounds
import RideTelemetry.Proofs.CurveShape
import RideTelemetry.Proofs.DoubleRounding
import RideTelemetry.Proofs.DoubleArithmetic
import RideTelemetry.Proofs.ConstantVelocity
import RideTelemetry.Proofs.HistogramBars
import RideTelemetry.Proofs.SessionFiles
import RideTelemetry.Proofs.NearestDoubles
import RideTelemetry.Proofs.SampleTimes
import RideTelemetry.Proofs.RecoveredRates
import RideTelemetry.Proofs.NestedWindows
import RideTelemetry.Proofs.Changes
import RideTelemetry.Proofs.ExactListing
import RideTelemetry.Proofs.LineParts
import RideTelemetry.Proofs.OptionOrder
import RideTelemetry.Proofs.LayeredSettings
import RideTelemetry.Proofs.Segmentation

import DataPipeline.Main
import DataPipeline.Record.Access
import DataPipeline.Record.DefaultConversion
import DataPipeline.Record.Digest
import DataPipeline.Proofs.Record.Construction
import DataPipeline.Proofs.Record.Equality
import DataPipeline.Proofs.Record.Reprojection
import DataPipeline.Proofs.Record.FieldSelection
import DataPipeline.Proofs.Definition.RawValue
import DataPipeline.Proofs.Definition.Lexeme
import DataPipeline.Proofs.Definition.TokenRun
import DataPipeline.Proofs.Definition.Grouping
import DataPipeline.Proofs.Definition.OptionLookup
import DataPipeline.Proofs.Definition.SegmentRun
import DataPipeline.Proofs.Definition.Acceptance
import DataPipeline.Proofs.Definition.Joining
import DataPipeline.Proofs.Definition.ByteLexer
import DataPipeline.Proofs.Definition.ByteLexerScan
import DataPipeline.Proofs.Definition.ByteLexerRun
import DataPipeline.Proofs.Definition.Location
import DataPipeline.Proofs.Definition.Printing
import DataPipeline.Proofs.Definition.Emission
import DataPipeline.Proofs.Definition.Lenience
import DataPipeline.Proofs.Definition.SingleModule
import DataPipeline.Proofs.Definition.SharedState
import DataPipeline.Proofs.Definition.FirstError
import DataPipeline.Proofs.Definition.RequestReading
import DataPipeline.Proofs.Record.RoundTrip
import DataPipeline.Proofs.Definition.NameReading
import DataPipeline.Proofs.Record.Descent
import DataPipeline.Proofs.Record.SelectionForm
import DataPipeline.Proofs.Record.ProjectionMerge
import DataPipeline.Proofs.Record.IntegerConversion
import DataPipeline.Proofs.DatePattern.PlainPattern
import DataPipeline.Proofs.Record.DateRoundTrip
import DataPipeline.Proofs.Record.TypedConversion
import DataPipeline.Proofs.Record.FloatRoundTrip
import DataPipeline.Proofs.Record.FieldMap
import DataPipeline.Proofs.Definition.ValueBoundary
import DataPipeline.Proofs.SettingsFile

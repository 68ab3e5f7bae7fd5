import Redate.Calendar
import Redate.CommandLine
import Redate.Converter
import Redate.Error
import Redate.Format.Input
import Redate.Format.Output
import Redate.Format.Token
import Redate.Log
import Redate.Main
import Redate.Matching.Choice
import Redate.Matching.First
import Redate.Matching.Scan
import Redate.Program
import Redate.Session
import Redate.Store
import Redate.Stream
import Redate.SystemError
import Redate.Template
import Redate.Text.Bytes
import Redate.Text.ControlSequence
import Redate.Text.Similarity
import Redate.Text.Words
import Redate.Proofs.Matching.Shape
import Redate.Proofs.Matching.Preference
import Redate.Proofs.Matching.Search
import Redate.Proofs.Conversion.Captures
import Redate.Proofs.Conversion.Slices
import Redate.Proofs.Conversion.Splice
import Redate.Proofs.Template.Slices
import Redate.Proofs.Template.Slots
import Redate.Proofs.Conversion.Reading
import Redate.Proofs.Conversion.RoundTrip
import Redate.Proofs.Conversion.Delimiter
import Redate.Proofs.Matching.Cuts
import Redate.Proofs.Conversion.Pieces
import Redate.Proofs.Conversion.FixedWidth
import Redate.Proofs.Conversion.Language
import Redate.Proofs.Conversion.Ordinals
import Redate.Proofs.Session
import Redate.Proofs.Template.Grammar
import Redate.Proofs.Template.Failures
import Redate.Proofs.Template.Rereading
import Redate.Proofs.Format.Pattern
import Redate.Proofs.Format.Fragment
import Redate.Proofs.Text.Bytes
import Redate.Proofs.Format.Tokens
import Redate.Proofs.Format.Steps
import Redate.Proofs.Stream
import Redate.Proofs.Store.Conversion
import Redate.Proofs.CommandLine
import Redate.Proofs.Program.Outcome
import Redate.Proofs.Program.Log

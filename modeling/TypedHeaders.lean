import TypedHeaders.Text.Blank
import TypedHeaders.Text.AsciiCase
import TypedHeaders.Text.Utf8
import TypedHeaders.Text.Size
import TypedHeaders.TokenList.Scan
import TypedHeaders.TokenList.Reading
import TypedHeaders.TokenList.Written
import TypedHeaders.Number.Integer
import TypedHeaders.Number.Binary64
import TypedHeaders.Header.Name
import TypedHeaders.Header.Table
import TypedHeaders.Header.Store
import TypedHeaders.Field.Shape
import TypedHeaders.Field.Basic
import TypedHeaders.Field.Origin
import TypedHeaders.Field.Extraction
import TypedHeaders.Value.TextCollection
import TypedHeaders.Value.Basic
import TypedHeaders.Value.Conversion
import TypedHeaders.Value.Source
import TypedHeaders.Ledger
import TypedHeaders.Binding.Event
import TypedHeaders.Binding.Context
import TypedHeaders.Binding.Activity
import TypedHeaders.Binding.Converter
import TypedHeaders.Binding.FromHeader
import TypedHeaders.Binding.Program
import TypedHeaders.Binding.Run
import TypedHeaders.Session
import TypedHeaders.Proofs.Programs
import TypedHeaders.Proofs.Stepwise
import TypedHeaders.Proofs.ClosedForm
import TypedHeaders.Proofs.Scope
import TypedHeaders.Proofs.Composition
import TypedHeaders.Proofs.Settled
import TypedHeaders.Proofs.Stack
import TypedHeaders.Proofs.Provenance
import TypedHeaders.Proofs.Layers
import TypedHeaders.Proofs.OwnLines
import TypedHeaders.Proofs.Order
import TypedHeaders.Proofs.History
import TypedHeaders.Proofs.Authorship
import TypedHeaders.Proofs.Progress
import TypedHeaders.Proofs.Decoding
import TypedHeaders.Proofs.StoreBlind
import TypedHeaders.Proofs.Stores
import TypedHeaders.Proofs.Held
import TypedHeaders.Proofs.HandOut
import TypedHeaders.Proofs.Typing
import TypedHeaders.Proofs.Rebinding
import TypedHeaders.Proofs.Absence
import TypedHeaders.Proofs.Lifetime
import TypedHeaders.Proofs.Segments
import TypedHeaders.Proofs.OnePass
import TypedHeaders.Proofs.Lines
import TypedHeaders.Proofs.RoundTrip
import TypedHeaders.Proofs.IntegerLists
import TypedHeaders.Proofs.TokenEnds
import TypedHeaders.Proofs.Delimiters
import TypedHeaders.Proofs.Rejoining
import TypedHeaders.Proofs.Trimming
import TypedHeaders.Proofs.Numerals
import TypedHeaders.Proofs.Variants
import TypedHeaders.Proofs.Precedence
import TypedHeaders.Proofs.Pieces
import TypedHeaders.Proofs.Eligibility
import TypedHeaders.Proofs.Presence
import TypedHeaders.Proofs.OctetOrder
import TypedHeaders.Proofs.LastRecord
import TypedHeaders.Proofs.ModelNames
import TypedHeaders.Proofs.TrimPosition

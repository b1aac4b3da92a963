import Conform.Binary64.Basic
import Conform.Binary64.Round
import Conform.Coerce.Engine
import Conform.Coerce.Outcome
import Conform.Coerce.Scalar
import Conform.Coercer
import Conform.Entries
import Conform.Json.Basic
import Conform.Json.Document
import Conform.Json.Escaped
import Conform.Json.Number
import Conform.Json.NumberText
import Conform.Json.Quoted
import Conform.Json.Token
import Conform.Numeral
import Conform.Numeral.Decimal
import Conform.Numeral.Radix
import Conform.Proofs.Rounding
import Conform.Proofs.StandIn
import Conform.Schema.Conversion
import Conform.Schema.Equality
import Conform.Schema.Form
import Conform.Schema.Literal
import Conform.Schema.Tag
import Conform.Text.Blank
import Conform.Text.Digits
import Conform.Text.Extender
import Conform.Text.Ignorable
import Conform.Text.Pieces
import Conform.Text.Quoted
import Conform.Text.Ranges
import Conform.Text.Unprintable
import Conform.Typed
import Conform.Proofs.Kinds
import Conform.Proofs.Walk
import Conform.Proofs.Conformance
import Conform.Proofs.Leafwise
import Conform.Proofs.Recoercion
import Conform.Proofs.Place
import Conform.Proofs.Failures
import Conform.Proofs.Pruning
import Conform.Proofs.Modes
import Conform.Proofs.Depth
import Conform.Proofs.Composition
import Conform.Proofs.Alike
import Conform.Proofs.Reordering
import Conform.Proofs.Bind
import Conform.Proofs.Undeclared
import Conform.Proofs.TagText
import Conform.Proofs.LiteralData
import Conform.Proofs.RoundTrip
import Conform.Proofs.LiteralErrors
import Conform.Proofs.LiteralEquality
import Conform.Proofs.UnionMembers
import Conform.Proofs.Nearest
import Conform.Proofs.NumeralText
import Conform.Proofs.NumeralValue
import Conform.Proofs.Outputs
import Conform.Proofs.IntegerText
import Conform.Proofs.RadixText
import Conform.Proofs.DoubleBits
import Conform.Proofs.NumeralLanguage
import Conform.Proofs.MixedUnion
import Conform.Proofs.ListText
import Conform.Proofs.DeadMembers
import Conform.Proofs.Discipline
import Conform.Proofs.TypedOutputs

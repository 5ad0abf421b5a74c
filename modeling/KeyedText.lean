import KeyedText.Configuration
import KeyedText.Encoding.Object
import KeyedText.Main
import KeyedText.Proofs.Binding.SetGet
import KeyedText.Proofs.RoundTrip.Objects
import KeyedText.Schema.MemberCache
import KeyedText.Proofs.Key.Rendered
import KeyedText.Proofs.Source.Rendered
import KeyedText.Proofs.Document.Branches
import KeyedText.Proofs.Number.Plain
import KeyedText.Proofs.RoundTrip.Documents
import KeyedText.Proofs.Binding.Growth
import KeyedText.Proofs.Binding.Frame
import KeyedText.Proofs.Lookup
import KeyedText.Proofs.Grouping.Prefixes
import KeyedText.Proofs.Binding.Twice
import KeyedText.Proofs.Source.Appended
import KeyedText.Proofs.RoundTrip.Sources
import KeyedText.Proofs.Document.Nodes
import KeyedText.Proofs.Binding.Commute
import KeyedText.Proofs.Configuration
import KeyedText.Proofs.Encoding.Redacted
import KeyedText.Proofs.RoundTrip.Keys
import KeyedText.Proofs.Binding.Positions
import KeyedText.Proofs.Scalar.Enum
import KeyedText.Proofs.Document.Positions
import KeyedText.Proofs.Number.Value
import KeyedText.Proofs.Binding.Ignored
import KeyedText.Proofs.Converters
import KeyedText.Proofs.Text.Case
import KeyedText.Proofs.Decoding.Fields
import KeyedText.Proofs.Binding.Dynamic
import KeyedText.Proofs.Binding.Hops
import KeyedText.Proofs.Source.Spans
import KeyedText.Proofs.Key.Cuts
import KeyedText.Binding.Cached
import KeyedText.Proofs.Binding.Cached
import KeyedText.Proofs.Scalar.Path
import KeyedText.Proofs.Source.Cursor

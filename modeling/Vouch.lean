import Vouch.Main
import Vouch.Proofs.System
import Vouch.Proofs.Store.Lookup
import Vouch.Proofs.Store.Operation
import Vouch.Proofs.Store.Consistency
import Vouch.Proofs.Store.History
import Vouch.Proofs.Pipeline.Move
import Vouch.Proofs.Pipeline.Authenticity
import Vouch.Proofs.Pipeline.Worker
import Vouch.Proofs.Pipeline.Admission
import Vouch.Proofs.Pipeline.Context
import Vouch.Proofs.Pipeline.Errand
import Vouch.Proofs.Store.Pins
import Vouch.Proofs.Store.Current
import Vouch.Proofs.Store.Naming
import Vouch.Proofs.Pipeline.Drain
import Vouch.Proofs.Node.Lock
import Vouch.Proofs.Node.Outstanding
import Vouch.Proofs.Pipeline.Custody
import Vouch.Proofs.Pipeline.Talk
import Vouch.Proofs.Pipeline.Parley
import Vouch.Proofs.Pipeline.Confluence
import Vouch.Proofs.Pipeline.Vigil
import Vouch.Proofs.Store.Listing
import Vouch.Proofs.Node.Inquiry
import Vouch.Proofs.Node.Response
import Vouch.Proofs.Trust.Monotone
import Vouch.Proofs.Trust.Influence
import Vouch.Proofs.Registry.Operation
import Vouch.Proofs.Trust.Recovery
import Vouch.Proofs.Pipeline.Prospect
import Vouch.Proofs.Pipeline.Arrival
import Vouch.Proofs.Registry.Numbering
import Vouch.Proofs.Direction
import Vouch.Proofs.Composition
import Vouch.Proofs.Node.AddressForm
import Vouch.Proofs.Trust.Figure
import Vouch.Proofs.Trust.Lifetime
import Vouch.Proofs.Trust.Relevance
import Vouch.Proofs.Pipeline.Acquaintance
import Vouch.Proofs.Trust.Locality
import Vouch.Proofs.Trust.Statistics
import Vouch.Proofs.Trust.Evidence
import Vouch.Proofs.Trust.Assembly
import Vouch.Proofs.Trust.Bounds
import Vouch.Proofs.Trust.Throughput
import Vouch.Proofs.Registry.Outcome
import Vouch.Proofs.Certificate
import Vouch.Proofs.Trust.RoundTrip
import Vouch.Proofs.Trust.Grammar
import Vouch.Proofs.Decimal.Binary64
import Vouch.Proofs.Decimal.Nearest
import Vouch.Proofs.Decimal.Shortest
import Vouch.Proofs.Json.Number
import Vouch.Proofs.Json.Value
import Vouch.Proofs.Trust.Restore
import Vouch.Proofs.Trust.Pooling
import Vouch.Proofs.Trust.Weights

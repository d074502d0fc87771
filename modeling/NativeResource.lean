import NativeResource.Broker.Query
import NativeResource.Handle.Holdings
import NativeResource.Handle.Race
import NativeResource.Host.Observer
import NativeResource.Host.Script
import NativeResource.Pool.Custody
import NativeResource.Pool.Limits
import NativeResource.Proofs.Broker.Acquiring
import NativeResource.Proofs.Broker.Conduct
import NativeResource.Proofs.Broker.Directory
import NativeResource.Proofs.Broker.Identifier
import NativeResource.Proofs.Broker.Link
import NativeResource.Proofs.Broker.Naming
import NativeResource.Proofs.Broker.NativeFailure
import NativeResource.Proofs.Broker.Reaching
import NativeResource.Proofs.Broker.Room
import NativeResource.Proofs.Broker.Subkeys
import NativeResource.Proofs.Broker.Tenure
import NativeResource.Proofs.Broker.TextFreed
import NativeResource.Proofs.Broker.Value
import NativeResource.Proofs.Buffer.Decoding
import NativeResource.Proofs.Buffer.History
import NativeResource.Proofs.Buffer.Reading
import NativeResource.Proofs.Code.Consistency
import NativeResource.Proofs.Code.Kind
import NativeResource.Proofs.Handle.Arena
import NativeResource.Proofs.Handle.Closing
import NativeResource.Proofs.Handle.Race
import NativeResource.Proofs.Handle.Reporting
import NativeResource.Proofs.Host.Conduct
import NativeResource.Proofs.Host.Slots
import NativeResource.Proofs.Pool.Alike
import NativeResource.Proofs.Pool.Conservation
import NativeResource.Proofs.Pool.Drain
import NativeResource.Proofs.Pool.Environment
import NativeResource.Proofs.Pool.Exchange
import NativeResource.Proofs.Pool.Fit
import NativeResource.Proofs.Pool.Inventory
import NativeResource.Proofs.Pool.Refusal
import NativeResource.Proofs.Pool.Selection
import NativeResource.Proofs.Registry.Cutting
import NativeResource.Proofs.Registry.Storage
import NativeResource.Proofs.Sizing.Agreement
import NativeResource.Proofs.Sizing.Batches
import NativeResource.Proofs.Sizing.Ceiling
import NativeResource.Proofs.Sizing.Chronicle
import NativeResource.Proofs.Sizing.Counting
import NativeResource.Proofs.Sizing.Course
import NativeResource.Proofs.Sizing.Enumeration
import NativeResource.Proofs.Sizing.Growth
import NativeResource.Proofs.Sizing.Lease
import NativeResource.Proofs.Sizing.Likeness
import NativeResource.Proofs.Sizing.Noting
import NativeResource.Proofs.Sizing.Observation
import NativeResource.Proofs.Sizing.Residue
import NativeResource.Proofs.Sizing.Rounds
import NativeResource.Proofs.Sizing.Service
import NativeResource.Proofs.Sizing.Termination
import NativeResource.Proofs.Sizing.Verdict
import NativeResource.Proofs.Text.Blanks
import NativeResource.Proofs.Text.Cutting
import NativeResource.Proofs.Text.Nulls
import NativeResource.Proofs.Text.RoundTrip
import NativeResource.Sizing.Observer
import NativeResource.Sizing.Script

import StackMachine.Assembly.Function
import StackMachine.Bytes.Word
import StackMachine.Code.Json
import StackMachine.Code.Listing
import StackMachine.Digest.Sha256
import StackMachine.Function.Fingerprint
import StackMachine.Function.Json
import StackMachine.Function.Relocation
import StackMachine.Function.Verification
import StackMachine.Json.Parser
import StackMachine.Json.Printer
import StackMachine.Json.Record
import StackMachine.Machine.Run
import StackMachine.Session
import StackMachine.Size
import StackMachine.Text.Decimal
import StackMachine.Text.Utf8
import StackMachine.Proofs.Bytes.Words
import StackMachine.Proofs.Code.Sequence
import StackMachine.Proofs.Code.Decoding
import StackMachine.Proofs.Function.Verified
import StackMachine.Proofs.Function.Relocated
import StackMachine.Proofs.Function.Preservation
import StackMachine.Proofs.Machine.Effect
import StackMachine.Proofs.Link.Accounting
import StackMachine.Proofs.Machine.Rounds
import StackMachine.Proofs.Link.Placement
import StackMachine.Proofs.Link.Linking
import StackMachine.Proofs.Machine.Soundness
import StackMachine.Proofs.Machine.Atomicity
import StackMachine.Proofs.Assembly.Script
import StackMachine.Proofs.Assembly.Assembled
import StackMachine.Proofs.Assembly.ReadBack
import StackMachine.Proofs.Assembly.Simulation
import StackMachine.Proofs.Assembly.Success
import StackMachine.Proofs.Assembly.Passes
import StackMachine.Proofs.Machine.Heap
import StackMachine.Proofs.Assembly.Regions
import StackMachine.Proofs.Link.History
import StackMachine.Proofs.Link.StaticData
import StackMachine.Proofs.Function.Fingerprint
import StackMachine.Proofs.Json.Scalars
import StackMachine.Proofs.Json.Values
import StackMachine.Proofs.Json.Records
import StackMachine.Proofs.Function.Text
import StackMachine.Proofs.Function.Exactness
import StackMachine.Proofs.Machine.Limit
import StackMachine.Proofs.Assembly.Handles
import StackMachine.Proofs.Assembly.Slots
import StackMachine.Proofs.Session.Phases
import StackMachine.Proofs.Machine.Access
import StackMachine.Proofs.Machine.Exchange
import StackMachine.Proofs.Machine.Footprint
import StackMachine.Proofs.Assembly.Frames
import StackMachine.Proofs.Machine.Locality
import StackMachine.Proofs.Machine.Counters
import StackMachine.Proofs.Machine.Forward
import StackMachine.Proofs.Function.InPlace
import StackMachine.Proofs.Code.Listing
import StackMachine.Proofs.Link.ImageSize
import StackMachine.Proofs.Link.ConfigText
import StackMachine.Proofs.Link.Fitting

import Promises.Engine.Specimen
import Promises.Engine.Traced
import Promises.Main
import Promises.Proofs.Agent.Allocation
import Promises.Proofs.Agent.Bound
import Promises.Proofs.Agent.Delivery
import Promises.Proofs.Agent.Fulfillment
import Promises.Proofs.Agent.Refusal
import Promises.Proofs.Agent.Termination
import Promises.Proofs.Agent.Unobservable
import Promises.Proofs.Agent.Way
import Promises.Proofs.Handle.Stack
import Promises.Proofs.Heap.Collection
import Promises.Proofs.Heap.Freshness
import Promises.Proofs.Paired.Agreement
import Promises.Proofs.Program.Order
import Promises.Proofs.Program.Returned
import Promises.Proofs.Program.Roots
import Promises.Proofs.Program.Settlements
import Promises.Proofs.Program.Translation
import Promises.Proofs.Shell.Chain
import Promises.Proofs.StringTable.Numbering
import Promises.Proofs.Value.Encoding

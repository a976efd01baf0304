import FlowGraph.Batch
import FlowGraph.Graph.Summary
import FlowGraph.Listing.Load
import FlowGraph.Logging
import FlowGraph.Number.Real
import FlowGraph.Proofs.Lookup
import FlowGraph.Proofs.Growth
import FlowGraph.Proofs.Control
import FlowGraph.Proofs.Connect
import FlowGraph.Proofs.Scans
import FlowGraph.Proofs.WellFormed
import FlowGraph.Proofs.Search
import FlowGraph.Proofs.Reach
import FlowGraph.Proofs.Drawing
import FlowGraph.Proofs.Wiring
import FlowGraph.Proofs.Leaders
import FlowGraph.Proofs.Build
import FlowGraph.Proofs.Simulation
import FlowGraph.Proofs.Verdict
import FlowGraph.Proofs.Tampering
import FlowGraph.Proofs.Exits
import FlowGraph.Proofs.DeadCode
import FlowGraph.Proofs.Freezing
import FlowGraph.Proofs.Mirror
import FlowGraph.Proofs.ControlClass
import FlowGraph.Proofs.Batch
import FlowGraph.Proofs.Listing
import FlowGraph.Proofs.Partition
import FlowGraph.Proofs.Dangling
import FlowGraph.Proofs.Isolation
import FlowGraph.Proofs.LeaderSet
import FlowGraph.Proofs.Counting
import FlowGraph.Proofs.Diagnosis
import FlowGraph.Proofs.Documents

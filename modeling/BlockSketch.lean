import BlockSketch.Device.Rehearsal
import BlockSketch.Device.Toolchain
import BlockSketch.Editor
import BlockSketch.Library.Types
import BlockSketch.Project.Store
import BlockSketch.Proofs.Graph.Links
import BlockSketch.Proofs.Graph.Rewire
import BlockSketch.Proofs.Graph.Accepted
import BlockSketch.Proofs.Graph.Forest
import BlockSketch.Proofs.Graph.Successor
import BlockSketch.Proofs.Graph.Shape
import BlockSketch.Proofs.Graph.Runs
import BlockSketch.Proofs.Graph.Rounds
import BlockSketch.Proofs.Typing.Admitted
import BlockSketch.Proofs.Typing.Typed
import BlockSketch.Proofs.Snapshot.Walk
import BlockSketch.Proofs.Snapshot.Twin
import BlockSketch.Proofs.Snapshot.Layout
import BlockSketch.Proofs.Snapshot.Rebuild
import BlockSketch.Proofs.Snapshot.Canonical
import BlockSketch.Proofs.Snapshot.Fitting
import BlockSketch.Proofs.Snapshot.RoundTrip
import BlockSketch.Proofs.Json.Clipped
import BlockSketch.Proofs.Json.Written
import BlockSketch.Proofs.Snapshot.Codec
import BlockSketch.Proofs.Snapshot.Reload
import BlockSketch.Proofs.Snapshot.Vetted
import BlockSketch.Proofs.Snapshot.Sorted
import BlockSketch.Proofs.Typing.Taken
import BlockSketch.Proofs.Snapshot.WellFormed
import BlockSketch.Proofs.Device.Line
import BlockSketch.Proofs.Device.Moves
import BlockSketch.Proofs.Device.Phases
import BlockSketch.Proofs.Device.Exclusive
import BlockSketch.Proofs.Device.Consistency
import BlockSketch.Proofs.Device.Turns
import BlockSketch.Proofs.Device.Readers
import BlockSketch.Proofs.Device.Calls
import BlockSketch.Proofs.Device.Uploads
import BlockSketch.Proofs.Device.Passing
import BlockSketch.Proofs.Device.Fanout
import BlockSketch.Proofs.Device.Rehearsed
import BlockSketch.Proofs.Graph.Grounded
import BlockSketch.Proofs.Graph.Chains
import BlockSketch.Proofs.Graph.Connections
import BlockSketch.Proofs.Graph.Deletions
import BlockSketch.Proofs.Typing.Reattached
import BlockSketch.Proofs.Typing.Faithful
import BlockSketch.Proofs.Typing.Stale
import BlockSketch.Proofs.Snapshot.Untouched
import BlockSketch.Proofs.Sketch.Plain
import BlockSketch.Proofs.Sketch.Refusal
import BlockSketch.Proofs.Sketch.Tree
import BlockSketch.Proofs.Sketch.Page
import BlockSketch.Proofs.Sketch.Lines
import BlockSketch.Proofs.Sketch.Indented
import BlockSketch.Proofs.Sketch.Wording
import BlockSketch.Proofs.Sketch.Printer
import BlockSketch.Proofs.Sketch.Places
import BlockSketch.Proofs.Sketch.Counters
import BlockSketch.Proofs.Sketch.Grammar
import BlockSketch.Proofs.Sketch.ReadBack
import BlockSketch.Proofs.Sketch.Literals
import BlockSketch.Proofs.Mirror.Session
import BlockSketch.Proofs.Snapshot.Paths
import BlockSketch.Proofs.Editor.Display
import BlockSketch.Proofs.Project.Saving
import BlockSketch.Proofs.Project.Opening
import BlockSketch.Proofs.Project.Updates
import BlockSketch.Proofs.Project.History
import BlockSketch.Proofs.Project.Answers
import BlockSketch.Proofs.Files.Steps
import BlockSketch.Proofs.Files.Writing
import BlockSketch.Proofs.Device.SketchFolder
import BlockSketch.Proofs.Device.PortList

import NodeScript.Binary.Basic
import NodeScript.Binary.Decimal
import NodeScript.Binary.Format
import NodeScript.Catalog
import NodeScript.Checksum
import NodeScript.CommandLine
import NodeScript.Compile.Assembly
import NodeScript.Compile.Chain
import NodeScript.Compile.Error
import NodeScript.Compile.Lowering
import NodeScript.Compile.Unit
import NodeScript.Component
import NodeScript.Diagnostic
import NodeScript.Execution.Basic
import NodeScript.Execution.Config
import NodeScript.Execution.Describe
import NodeScript.Execution.Elapsed
import NodeScript.Execution.Instance
import NodeScript.Execution.Journal
import NodeScript.Execution.Machine
import NodeScript.Execution.Registry
import NodeScript.Execution.Scene
import NodeScript.Graph.Basic
import NodeScript.Graph.Document
import NodeScript.Graph.Edit
import NodeScript.Graph.Error
import NodeScript.Graph.Kind
import NodeScript.Graph.Session
import NodeScript.Json.Number
import NodeScript.Json.Printer
import NodeScript.Json.Token
import NodeScript.Json.Tree
import NodeScript.Json.Value
import NodeScript.Main
import NodeScript.Packed.Payload
import NodeScript.Packed.Reader
import NodeScript.Packed.Writer
import NodeScript.Program
import NodeScript.Program.Listing
import NodeScript.Project.Build
import NodeScript.Project.FileTree
import NodeScript.Project.Manifest
import NodeScript.Proofs.Compile.Layout
import NodeScript.Proofs.Graph.Accepted
import NodeScript.Proofs.Graph.Meaning
import NodeScript.Proofs.Compile.Variables
import NodeScript.Proofs.Compile.Emission
import NodeScript.Script
import NodeScript.SortedMap
import NodeScript.Source.Statement
import NodeScript.Table.Basic
import NodeScript.Table.Codec
import NodeScript.Table.Source
import NodeScript.Text.Hex
import NodeScript.Text.Hidden
import NodeScript.Proofs.Compile.Blocks
import NodeScript.Proofs.Compile.Lowered
import NodeScript.Proofs.Compile.Unit
import NodeScript.Proofs.Compile.Placement
import NodeScript.Proofs.Execution.Calls
import NodeScript.Proofs.Execution.Rules
import NodeScript.Proofs.Execution.Steps
import NodeScript.Proofs.Graph.Walk
import NodeScript.Proofs.Compile.Simulation
import NodeScript.Proofs.Compile.Correctness
import NodeScript.Proofs.Execution.Safety
import NodeScript.Proofs.Compile.Soundness
import NodeScript.Proofs.Execution.Independence
import NodeScript.Proofs.Source.Reader
import NodeScript.Proofs.Compile.Joins
import NodeScript.Proofs.Compile.Legible
import NodeScript.Proofs.Compile.Readback
import NodeScript.Proofs.SortedMap
import NodeScript.Proofs.Execution.Lifecycle
import NodeScript.Proofs.Execution.Triggers
import NodeScript.Proofs.Execution.Alike
import NodeScript.Proofs.Execution.Frames
import NodeScript.Proofs.Json.Literals
import NodeScript.Proofs.Json.Printed
import NodeScript.Proofs.Json.Values
import NodeScript.Proofs.Graph.Edits
import NodeScript.Proofs.Graph.Documents
import NodeScript.Proofs.Graph.Histories
import NodeScript.Proofs.Graph.Preorder
import NodeScript.Proofs.Graph.Rows
import NodeScript.Proofs.Packed.Fields
import NodeScript.Proofs.Packed.Records
import NodeScript.Proofs.Packed.Roundtrip
import NodeScript.Proofs.Compile.Success
import NodeScript.Proofs.Compile.Order
import NodeScript.Proofs.Packed.Agreement
import NodeScript.Proofs.Source.FileScope
import NodeScript.Proofs.Compile.Declarations
import NodeScript.Proofs.Table.Scripts
import NodeScript.Proofs.Table.Definitions
import NodeScript.Proofs.Table.Codec
import NodeScript.Proofs.Execution.Loops
import NodeScript.Proofs.Compile.Counters
import NodeScript.Proofs.Source.Lines
import NodeScript.Proofs.Source.Labels
import NodeScript.Proofs.Source.Comments
import NodeScript.Proofs.Graph.Renaming
import NodeScript.Proofs.Compile.Labels
import NodeScript.Proofs.Compile.Naming
import NodeScript.Proofs.Execution.Isolation
import NodeScript.Proofs.Table.Lookup
import NodeScript.Proofs.Table.Loading
import NodeScript.Proofs.Table.Components
import NodeScript.Proofs.Graph.Rearranging
import NodeScript.Proofs.Compile.Parallel
import NodeScript.Proofs.Compile.Dependence
import NodeScript.Proofs.Compile.Reports
import NodeScript.Proofs.Compile.Clean
import NodeScript.Proofs.Execution.Restarts
import NodeScript.Proofs.Compile.Reach
import NodeScript.Proofs.Execution.Waiting
import NodeScript.Proofs.Packed.Acceptance
import NodeScript.Proofs.Packed.Overflow
import NodeScript.Proofs.Project.Assets
import NodeScript.Proofs.Table.Additions
import NodeScript.Proofs.Packed.Taking
import NodeScript.Proofs.Execution.Starts
import NodeScript.Proofs.Execution.Containment
import NodeScript.Proofs.Compile.Registration
import NodeScript.Proofs.Source.Scopes
import NodeScript.Proofs.Compile.Vocabulary
import NodeScript.Proofs.Compile.Constants
import NodeScript.Proofs.Compile.Header
import NodeScript.Proofs.Compile.Closure
import NodeScript.Proofs.Table.Listing
import NodeScript.Proofs.Checksum.Division
import NodeScript.Proofs.Checksum.Collisions
import NodeScript.Proofs.Binary.Order
import NodeScript.Proofs.Execution.Progress

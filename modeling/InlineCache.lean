import InlineCache.Codegen.Allocator
import InlineCache.Codegen.Bailout
import InlineCache.Codegen.Compile
import InlineCache.Codegen.Emit
import InlineCache.Codegen.Engine
import InlineCache.Codegen.Error
import InlineCache.Codegen.Inputs
import InlineCache.Codegen.Instruction
import InlineCache.Codegen.Place
import InlineCache.Codegen.Snippet
import InlineCache.Decimal.Shortest
import InlineCache.Heap.ClassKind
import InlineCache.Heap.Image
import InlineCache.Heap.Key
import InlineCache.Heap.Layout
import InlineCache.Listing.Grammar
import InlineCache.Listing.Printer
import InlineCache.Listing.Resolve
import InlineCache.Listing.Tree
import InlineCache.Options
import InlineCache.Program.Arg
import InlineCache.Program.Basic
import InlineCache.Program.Builder
import InlineCache.Program.CacheKind
import InlineCache.Program.Cursor
import InlineCache.Program.Eval
import InlineCache.Program.Field
import InlineCache.Program.Instruction
import InlineCache.Program.Op
import InlineCache.Proofs.Codegen.Allocation
import InlineCache.Proofs.Codegen.Answers
import InlineCache.Proofs.Codegen.Bailouts
import InlineCache.Proofs.Codegen.Blind
import InlineCache.Proofs.Codegen.Body
import InlineCache.Proofs.Codegen.Boxes
import InlineCache.Proofs.Codegen.Computes
import InlineCache.Proofs.Codegen.Configuration
import InlineCache.Proofs.Codegen.Constants
import InlineCache.Proofs.Codegen.Correct
import InlineCache.Proofs.Codegen.Determined
import InlineCache.Proofs.Codegen.Entry
import InlineCache.Proofs.Codegen.FailurePaths
import InlineCache.Proofs.Codegen.Guards
import InlineCache.Proofs.Codegen.Handing
import InlineCache.Proofs.Codegen.Instruction
import InlineCache.Proofs.Codegen.Invariant
import InlineCache.Proofs.Codegen.LevelBody
import InlineCache.Proofs.Codegen.LevelPaths
import InlineCache.Proofs.Codegen.Limits
import InlineCache.Proofs.Codegen.Liveness
import InlineCache.Proofs.Codegen.Loads
import InlineCache.Proofs.Codegen.Meaning
import InlineCache.Proofs.Codegen.Operands
import InlineCache.Proofs.Codegen.ParallelMove
import InlineCache.Proofs.Codegen.Partition
import InlineCache.Proofs.Codegen.Payments
import InlineCache.Proofs.Codegen.Pieces
import InlineCache.Proofs.Codegen.Preservation
import InlineCache.Proofs.Codegen.Pushes
import InlineCache.Proofs.Codegen.Realizes
import InlineCache.Proofs.Codegen.Registers
import InlineCache.Proofs.Codegen.Requests
import InlineCache.Proofs.Codegen.Restore
import InlineCache.Proofs.Codegen.Results
import InlineCache.Proofs.Codegen.Sections
import InlineCache.Proofs.Codegen.Sessions
import InlineCache.Proofs.Codegen.SharedBailouts
import InlineCache.Proofs.Codegen.Snippet
import InlineCache.Proofs.Codegen.StackDiscipline
import InlineCache.Proofs.Codegen.StackRoom
import InlineCache.Proofs.Codegen.Steps
import InlineCache.Proofs.Codegen.Total
import InlineCache.Proofs.Codegen.Tracks
import InlineCache.Proofs.Codegen.Translates
import InlineCache.Proofs.Codegen.TypeTests
import InlineCache.Proofs.Codegen.Unwatched
import InlineCache.Proofs.Codegen.Virtual
import InlineCache.Proofs.Ensures
import InlineCache.Proofs.Listing.Accepted
import InlineCache.Proofs.Listing.Declared
import InlineCache.Proofs.Listing.Layout
import InlineCache.Proofs.Listing.Parsed
import InlineCache.Proofs.Listing.Reading
import InlineCache.Proofs.Listing.Rendering
import InlineCache.Proofs.Listing.Resolved
import InlineCache.Proofs.Listing.Resolving
import InlineCache.Proofs.Listing.RoundTrip
import InlineCache.Proofs.Listing.Tokens
import InlineCache.Proofs.Program.Built
import InlineCache.Proofs.Program.Encoding
import InlineCache.Proofs.Program.History
import InlineCache.Proofs.Program.LastUse
import InlineCache.Proofs.Program.Locality
import InlineCache.Proofs.Program.Regular
import InlineCache.Proofs.Program.Reorder
import InlineCache.Proofs.Program.Repetition
import InlineCache.Proofs.Program.Shape
import InlineCache.Proofs.Program.Typing
import InlineCache.Proofs.Stub.Agreement
import InlineCache.Proofs.Stub.Attached
import InlineCache.Proofs.Stub.Attempts
import InlineCache.Proofs.Stub.Block
import InlineCache.Proofs.Stub.Calls
import InlineCache.Proofs.Stub.Data
import InlineCache.Proofs.Stub.Histories
import InlineCache.Proofs.Stub.Placement
import InlineCache.Proofs.Stub.Sharing
import InlineCache.Proofs.Stub.Tracing
import InlineCache.Proofs.Value.Boxing
import InlineCache.Proofs.Value.Integers
import InlineCache.Proofs.Word.Region
import InlineCache.Proofs.X64.Exec
import InlineCache.Proofs.X64.Layout
import InlineCache.Proofs.X64.Levels
import InlineCache.Stub.Attach
import InlineCache.Stub.Chain
import InlineCache.Stub.Data
import InlineCache.Stub.Info
import InlineCache.Stub.Run
import InlineCache.Text.Blank
import InlineCache.Text.Identifier
import InlineCache.Text.Number
import InlineCache.Text.Quoted
import InlineCache.Value.Basic
import InlineCache.Value.Text
import InlineCache.Value.Type
import InlineCache.Word.Bytes
import InlineCache.Word.Memory
import InlineCache.X64.Assembly
import InlineCache.X64.Decode
import InlineCache.X64.Instr
import InlineCache.X64.Machine
import InlineCache.X64.Register

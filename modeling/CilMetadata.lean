import CilMetadata.Attribute.Basic
import CilMetadata.Body.Basic
import CilMetadata.Body.Build
import CilMetadata.Body.Clause
import CilMetadata.Body.Labels
import CilMetadata.Body.Raw
import CilMetadata.Body.StackDepth
import CilMetadata.Bytes.Compressed
import CilMetadata.Bytes.Cursor
import CilMetadata.Bytes.Fixed
import CilMetadata.Bytes.Output
import CilMetadata.Decimal.Shortest
import CilMetadata.Decimal.Text
import CilMetadata.Fault
import CilMetadata.Graph.Basic
import CilMetadata.Graph.Code
import CilMetadata.Graph.Edit
import CilMetadata.Graph.Inspect
import CilMetadata.Graph.Names
import CilMetadata.Graph.Relations
import CilMetadata.Graph.Runs
import CilMetadata.Graph.Signatures
import CilMetadata.Graph.Slot
import CilMetadata.Heap.All
import CilMetadata.Heap.Blobs
import CilMetadata.Heap.Guids
import CilMetadata.Heap.Strings
import CilMetadata.Heap.UserStrings
import CilMetadata.Instruction.Basic
import CilMetadata.Instruction.Decode
import CilMetadata.Instruction.Encode
import CilMetadata.Instruction.Opcode
import CilMetadata.Proofs.Attribute.RoundTrip
import CilMetadata.Proofs.Body.DeeperStack
import CilMetadata.Proofs.Body.Labels
import CilMetadata.Proofs.Body.Locality
import CilMetadata.Proofs.Body.Pipeline
import CilMetadata.Proofs.Body.ReadBack
import CilMetadata.Proofs.Body.Rebuild
import CilMetadata.Proofs.Body.RoundTrip
import CilMetadata.Proofs.Body.StackDepth
import CilMetadata.Proofs.Bytes.Advance
import CilMetadata.Proofs.Bytes.Compressed
import CilMetadata.Proofs.Bytes.Extension
import CilMetadata.Proofs.Bytes.Following
import CilMetadata.Proofs.Bytes.Minimal
import CilMetadata.Proofs.Bytes.Position
import CilMetadata.Proofs.Bytes.PrefixCode
import CilMetadata.Proofs.Bytes.Stream
import CilMetadata.Proofs.Bytes.Success
import CilMetadata.Proofs.Fault
import CilMetadata.Proofs.Graph.Agreement
import CilMetadata.Proofs.Graph.Answers
import CilMetadata.Proofs.Graph.Bisection
import CilMetadata.Proofs.Graph.Cache
import CilMetadata.Proofs.Graph.Callees
import CilMetadata.Proofs.Graph.Dependence
import CilMetadata.Proofs.Graph.Identity
import CilMetadata.Proofs.Graph.Laziness
import CilMetadata.Proofs.Graph.Modifiers
import CilMetadata.Proofs.Graph.NamedOwners
import CilMetadata.Proofs.Graph.Nesting
import CilMetadata.Proofs.Graph.Ownership
import CilMetadata.Proofs.Graph.Properties
import CilMetadata.Proofs.Graph.Replacement
import CilMetadata.Proofs.Graph.Simulation
import CilMetadata.Proofs.Graph.StrictLoading
import CilMetadata.Proofs.Heap.History
import CilMetadata.Proofs.Heap.Stored
import CilMetadata.Proofs.Instruction.Layout
import CilMetadata.Proofs.Instruction.Reach
import CilMetadata.Proofs.Instruction.ReadBack
import CilMetadata.Proofs.Instruction.Tiling
import CilMetadata.Proofs.Relocation.Activation
import CilMetadata.Proofs.Relocation.Flush
import CilMetadata.Proofs.Relocation.Ledger
import CilMetadata.Proofs.Relocation.Merging
import CilMetadata.Proofs.Relocation.Numbering
import CilMetadata.Proofs.Relocation.Tokens
import CilMetadata.Proofs.Signature.Canonical
import CilMetadata.Proofs.Signature.Composition
import CilMetadata.Proofs.Signature.Depth
import CilMetadata.Proofs.Signature.Guarded
import CilMetadata.Proofs.Signature.Levels
import CilMetadata.Proofs.Signature.Loops
import CilMetadata.Proofs.Signature.Misreading
import CilMetadata.Proofs.Signature.ReadBack
import CilMetadata.Proofs.Signature.Refusal
import CilMetadata.Proofs.Signature.Reread
import CilMetadata.Proofs.Signature.Resolution
import CilMetadata.Proofs.Signature.Reuse
import CilMetadata.Proofs.Signature.RoundTrip
import CilMetadata.Proofs.Signature.Spelling
import CilMetadata.Proofs.Signature.Substitution
import CilMetadata.Proofs.Signature.Transparency
import CilMetadata.Proofs.Signature.Writable
import CilMetadata.Proofs.Table.Aliasing
import CilMetadata.Proofs.Table.CodedIndex
import CilMetadata.Proofs.Table.ColumnRange
import CilMetadata.Proofs.Table.Places
import CilMetadata.Proofs.Table.References
import CilMetadata.Proofs.Table.RowCodec
import CilMetadata.Proofs.Table.Threshold
import CilMetadata.Proofs.Text.Unicode
import CilMetadata.Proofs.Token
import CilMetadata.Proofs.TypeName.Lexemes
import CilMetadata.Proofs.TypeName.Lossless
import CilMetadata.Proofs.TypeName.RoundTrip
import CilMetadata.Relocation.Basic
import CilMetadata.Relocation.Buffer
import CilMetadata.Relocation.Values
import CilMetadata.Settings
import CilMetadata.Signature.Any
import CilMetadata.Signature.Basic
import CilMetadata.Signature.Decode
import CilMetadata.Signature.Element
import CilMetadata.Signature.Encode
import CilMetadata.Signature.Expansion
import CilMetadata.Signature.Instantiate
import CilMetadata.Table.CodedIndex
import CilMetadata.Table.CodedKind
import CilMetadata.Table.Kind
import CilMetadata.Table.Layout
import CilMetadata.Table.Row
import CilMetadata.Table.Store
import CilMetadata.Table.Widths
import CilMetadata.Text.Blank
import CilMetadata.Text.Escaped
import CilMetadata.Text.Listing
import CilMetadata.Text.Radix
import CilMetadata.Text.Unprintable
import CilMetadata.Text.Utf16
import CilMetadata.Token
import CilMetadata.TypeName.Basic
import CilMetadata.TypeName.Lexer
import CilMetadata.TypeName.Parse

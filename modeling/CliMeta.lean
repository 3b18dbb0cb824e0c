import CliMeta.Assembly.Identity
import CliMeta.Image.Method
import CliMeta.Signature.Decoder
import CliMeta.Proofs.Reader.Sequential
import CliMeta.Proofs.Signature.Sequential
import CliMeta.Proofs.Signature.SelfDelimiting
import CliMeta.Proofs.Reader.Compressed
import CliMeta.Proofs.Signature.Writer
import CliMeta.Proofs.Signature.Reading
import CliMeta.Proofs.Signature.Accepted
import CliMeta.Proofs.Signature.RoundTrip
import CliMeta.Proofs.Reader.Inversion
import CliMeta.Proofs.Instruction.Outcome
import CliMeta.Proofs.Instruction.Assembler
import CliMeta.Proofs.Instruction.Jump
import CliMeta.Proofs.Instruction.Stream
import CliMeta.Proofs.Instruction.RoundTrip
import CliMeta.Proofs.Reader.Contained
import CliMeta.Proofs.Body.Sections
import CliMeta.Proofs.Body.Extent
import CliMeta.Proofs.Table.Accepted
import CliMeta.Proofs.Table.Cells
import CliMeta.Proofs.Table.Writer
import CliMeta.Proofs.Table.RoundTrip
import CliMeta.Proofs.Table.Ranges
import CliMeta.Proofs.Table.Indirection
import CliMeta.Proofs.Body.Writer
import CliMeta.Proofs.Body.RoundTrip
import CliMeta.Proofs.Signature.Nesting
import CliMeta.Proofs.Instruction.Lookup
import CliMeta.Proofs.Image.Listing
import CliMeta.Proofs.Table.Reference
import CliMeta.Proofs.Image.Loaded
import CliMeta.Proofs.Image.Tolerance
import CliMeta.Proofs.Image.Headers
import CliMeta.Proofs.Image.Executable
import CliMeta.Proofs.Image.Directory
import CliMeta.Proofs.Image.Selection
import CliMeta.Proofs.Machine.Basic
import CliMeta.Proofs.Machine.Reader
import CliMeta.Proofs.Machine.Root
import CliMeta.Proofs.Machine.Tables
import CliMeta.Proofs.Machine.Rows
import CliMeta.Proofs.Machine.Heap
import CliMeta.Proofs.Machine.Record
import CliMeta.Proofs.Machine.Signature
import CliMeta.Proofs.Machine.Body
import CliMeta.Proofs.Machine.Instruction
import CliMeta.Proofs.Machine.Method
import CliMeta.Proofs.Machine.Image
import CliMeta.Proofs.Text.Utf8
import CliMeta.Proofs.Reader.Terminated
import CliMeta.Proofs.Heap.Iteration
import CliMeta.Proofs.Heap.Format
import CliMeta.Proofs.Heap.Tiling
import CliMeta.Proofs.Heap.RoundTrip
import CliMeta.Proofs.Root.RoundTrip
import CliMeta.Proofs.Root.Walk
import CliMeta.Proofs.Table.Encoding
import CliMeta.Proofs.Table.Widths
import CliMeta.Proofs.Signature.Grammar
import CliMeta.Proofs.Signature.Prefixes
import CliMeta.Proofs.Table.Declared
import CliMeta.Proofs.Record.Sources
import CliMeta.Proofs.Record.Columns
import CliMeta.Proofs.Image.Slots
import CliMeta.Proofs.Table.Tokens
import CliMeta.Proofs.Image.Validated
import CliMeta.Proofs.Reader.Lead
import CliMeta.Proofs.Signature.Spelling
import CliMeta.Proofs.Signature.Parts
import CliMeta.Proofs.Outcome
import CliMeta.Proofs.Text.Blank
import CliMeta.Proofs.Assembly.Key
import CliMeta.Proofs.Assembly.Version
import CliMeta.Proofs.Assembly.Components
import CliMeta.Proofs.Assembly.Display
import CliMeta.Proofs.Heap.Numbering
import CliMeta.Proofs.Reader.Cursor
import CliMeta.Proofs.Reader.Program
import CliMeta.Proofs.Body.Progress

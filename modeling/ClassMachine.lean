import ClassMachine.Attribute
import ClassMachine.Bytes.BigEndian
import ClassMachine.Bytes.BigEndian.Lemmas
import ClassMachine.Bytes.Reader
import ClassMachine.ClassFile.Basic
import ClassMachine.ClassFile.Codec
import ClassMachine.Cli.Arguments
import ClassMachine.Cli.FileTree
import ClassMachine.Cli.Reply
import ClassMachine.Code.Basic
import ClassMachine.Code.LineTable
import ClassMachine.Constant.Basic
import ClassMachine.Constant.Codec
import ClassMachine.Descriptor.Basic
import ClassMachine.Descriptor.Parse
import ClassMachine.Format.Error
import ClassMachine.Heap
import ClassMachine.Instruction.Basic
import ClassMachine.Instruction.Decode
import ClassMachine.Launch
import ClassMachine.Machine.Action
import ClassMachine.Machine.Basic
import ClassMachine.Machine.Execute
import ClassMachine.Machine.Fault
import ClassMachine.Machine.Outcome
import ClassMachine.Machine.Run
import ClassMachine.Main
import ClassMachine.Member
import ClassMachine.Number.Binary
import ClassMachine.Number.Shortest
import ClassMachine.Opcode.Basic
import ClassMachine.Opcode.Table
import ClassMachine.Pool.Basic
import ClassMachine.Pool.Codec
import ClassMachine.Program.Basic
import ClassMachine.Program.Entry
import ClassMachine.Program.LoadError
import ClassMachine.Proofs.Bytecode.Defects
import ClassMachine.Proofs.Bytecode.Meaning
import ClassMachine.Proofs.Bytecode.Operands
import ClassMachine.Proofs.Bytecode.Tiling
import ClassMachine.Proofs.Checked.Basic
import ClassMachine.Proofs.Checked.Launching
import ClassMachine.Proofs.Checked.Loading
import ClassMachine.Proofs.Checked.Running
import ClassMachine.Proofs.Codec.Addresses
import ClassMachine.Proofs.Codec.ClassFiles
import ClassMachine.Proofs.Codec.Codes
import ClassMachine.Proofs.Codec.Composition
import ClassMachine.Proofs.Codec.Constants
import ClassMachine.Proofs.Codec.Counts
import ClassMachine.Proofs.Codec.Exact
import ClassMachine.Proofs.Codec.Extension
import ClassMachine.Proofs.Codec.PoolDefects
import ClassMachine.Proofs.Codec.Pools
import ClassMachine.Proofs.Codec.RoundTrip
import ClassMachine.Proofs.Codec.Truncation
import ClassMachine.Proofs.Expression.Basic
import ClassMachine.Proofs.Expression.Code
import ClassMachine.Proofs.Expression.Evaluation
import ClassMachine.Proofs.Machine.Arithmetic
import ClassMachine.Proofs.Machine.Blanking
import ClassMachine.Proofs.Machine.Boundaries
import ClassMachine.Proofs.Machine.Budget
import ClassMachine.Proofs.Machine.Effects
import ClassMachine.Proofs.Machine.Failures
import ClassMachine.Proofs.Machine.Forward
import ClassMachine.Proofs.Machine.Frame
import ClassMachine.Proofs.Machine.Independence
import ClassMachine.Proofs.Machine.Lifecycle
import ClassMachine.Proofs.Machine.Loads
import ClassMachine.Proofs.Machine.Objects
import ClassMachine.Proofs.Machine.Policies
import ClassMachine.Proofs.Machine.Provenance
import ClassMachine.Proofs.Machine.Reached
import ClassMachine.Proofs.Machine.Relocation
import ClassMachine.Proofs.Machine.Runs
import ClassMachine.Proofs.Machine.Shift
import ClassMachine.Proofs.Machine.ShiftedRuns
import ClassMachine.Proofs.Machine.Steps
import ClassMachine.Proofs.Machine.Trace
import ClassMachine.Proofs.Machine.Values
import ClassMachine.Proofs.Program.Arguments
import ClassMachine.Proofs.Program.Entry
import ClassMachine.Proofs.Program.Lines
import ClassMachine.Proofs.Program.Lookup
import ClassMachine.Proofs.Program.Placement
import ClassMachine.Text.Hex
import ClassMachine.Value

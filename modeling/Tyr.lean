import Tyr.Lib.Bytes
import Tyr.Lib.Items
import Tyr.Lib.Heap
import Tyr.Lib.Maintains
import Tyr.Lib.Frame
import Tyr.Lib.Traced
import Tyr.Lib.Layout
import Tyr.Lib.Transition
import Tyr.Lib.Text
import Tyr.Lib.Table
import Tyr.Lib.Fallible
import Tyr.Lib.Base64
import Tyr.Lib.Sextets
import Tyr.Lib.Ssa
import Tyr.Lib.Emits
import Tyr.Lib.Cfg
import Tyr.IR.Types
import Tyr.IR.Struct
import Tyr.IR.Links
import Tyr.Parser.Module
import Tyr.Parser.Parse
import Tyr.Parser.Steps
import Tyr.Parser.Safety
import Tyr.Parser.Comments
import Tyr.Parser.Invariants
import Tyr.Parser.Complete
import Tyr.Parser.Source
import Tyr.Parser.Declared
import Tyr.Parser.TypeNames
import Tyr.CodeGen.Target
import Tyr.CodeGen.Functions
import Tyr.CodeGen.Accessors
import Tyr.CodeGen.Wire
import Tyr.CodeGen.Slots
import Tyr.CodeGen.Emitted
import Tyr.CodeGen.Symbols
import Tyr.CodeGen.Visit
import Tyr.CodeGen.Total
import Tyr.CodeGen.Header
import Tyr.CodeGen.Agreement
import Tyr.Wire.Serialize
import Tyr.Wire.Deserialize
import Tyr.Wire.RoundTrip
import Tyr.Wire.Untrusted
import Tyr.Wire.AllocFailure
import Tyr.Wire.Nested
import Tyr.Wire.Determined
import Tyr.Wire.ByteOrder
import Tyr.Wire.Value
import Tyr.Wire.Recover
import Tyr.Wire.Interchange
import Tyr.Access.Calls
import Tyr.Access.Failure
import Tyr.Access.Spec
import Tyr.Access.Lifetime
import Tyr.Access.Ownership
import Tyr.Access.Record
import Tyr.Access.Contents
import Tyr.Access.Refinement
import Tyr.Access.Constructor
import Tyr.Access.NullArguments
import Tyr.Access.Footprint
import Tyr.Access.Shield
import Tyr.Access.Immutable
import Tyr.Access.DeepCopy
import Tyr.Access.Alignment
import Tyr.Access.Misaligned
import Tyr.Wire.Leaks
import Tyr.Wire.Reserialize
import Tyr.Wire.FieldOrder
import Tyr.Wire.Alignment
import Tyr.Wire.Misaligned
import Tyr.Wire.SwapLoop
import Tyr.Wire.Exchange
import Tyr.Wire.Ledger
import Tyr.Runtime.Base64
import Tyr.Runtime.Encode
import Tyr.Runtime.Decode
import Tyr.Runtime.Transfer
import Tyr.Runtime.Accepted
import Tyr.Runtime.FileHelper
import Tyr.Runtime.Save
import Tyr.Runtime.Stored
import Tyr.Runtime.Posted
import Tyr.Runtime.HostOrder
import Tyr.Llvm.Generate
import Tyr.Llvm.Rules
import Tyr.Llvm.Fields
import Tyr.Llvm.Structs
import Tyr.Llvm.Module
import Tyr.Llvm.Blocks
import Tyr.Llvm.Exchange

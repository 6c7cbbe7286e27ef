import DirectC.Quoted
import DirectC.Table
import DirectC.Diagnostic
import DirectC.Scanner
import DirectC.CType
import DirectC.Layout
import DirectC.SharedLayout
import DirectC.Tree
import DirectC.TreeText
import DirectC.Env
import DirectC.Scope
import DirectC.Grammar.Fault
import DirectC.Grammar.Typing
import DirectC.Grammar.Reading
import DirectC.Grammar.TypeName
import DirectC.Grammar.Expression
import DirectC.Grammar.Statement
import DirectC.Grammar.SourceFile
import DirectC.Rope
import DirectC.Machine.Register
import DirectC.Machine.Instr
import DirectC.Frame
import DirectC.Lowering.Fault
import DirectC.Lowering.Expression
import DirectC.Lowering.Statement
import DirectC.CodeArea
import DirectC.Image
import DirectC.Settings
import DirectC.Prelude
import DirectC.Compile
import DirectC.Numeral
import DirectC.Flags
import DirectC.Toml.Token
import DirectC.Toml.Scalar
import DirectC.Toml.Node
import DirectC.Toml.Document
import DirectC.Settings.File
import DirectC.Settings.Override
import DirectC.Path
import DirectC.Disk
import DirectC.HexDump
import DirectC.Markup
import DirectC.Notice
import DirectC.CommandLine
import DirectC.Main
import DirectC.Proofs.Lowering.Derivation
import DirectC.Proofs.Lowering.StackDiscipline
import DirectC.Proofs.Grammar.Rules
import DirectC.Proofs.Grammar.Running
import DirectC.Proofs.Grammar.Likeness
import DirectC.Proofs.Grammar.Alike
import DirectC.Proofs.Grammar.Forming
import DirectC.Proofs.Grammar.Widening
import DirectC.Proofs.Layout
import DirectC.Proofs.Environment
import DirectC.Proofs.Lowering.Refusal
import DirectC.Proofs.Lowering.Agreement
import DirectC.Proofs.CodeArea
import DirectC.Proofs.Lowerable
import DirectC.Proofs.Machine.Decoding
import DirectC.Proofs.Machine.Execution
import DirectC.Proofs.Semantics
import DirectC.Proofs.Lowering.Computation
import DirectC.Proofs.Lowering.Operators
import DirectC.Proofs.Lowering.Preservation
import DirectC.Proofs.SemanticPreservation
import DirectC.Proofs.Image
import DirectC.Proofs.Room
import DirectC.Proofs.StructLayout
import DirectC.Proofs.Slots
import DirectC.Proofs.Compile
import DirectC.Proofs.Consistency
import DirectC.Proofs.AddressIndependence
import DirectC.Proofs.WiderLimits
import DirectC.Proofs.CallChecking
import DirectC.Proofs.StableSizes
import DirectC.Proofs.Scanner
import DirectC.Proofs.Grammar.Anchors
import DirectC.Proofs.Grammar.Anchoring
import DirectC.Proofs.Grammar.Record
import DirectC.Proofs.Sessions
import DirectC.Proofs.Replacement
import DirectC.Proofs.Lowering.Complaints
import DirectC.Proofs.Lowering.Positions
import DirectC.Proofs.Lowering.Inclusion
import DirectC.Proofs.Library
import DirectC.Proofs.Failures
import DirectC.Proofs.Grammar.Trail
import DirectC.Proofs.Growth
import DirectC.Proofs.Grammar.Allowed
import DirectC.Proofs.Grammar.Keeping
import DirectC.Proofs.Grammar.Making
import DirectC.Proofs.Grammar.Segments
import DirectC.Proofs.Grammar.Definitions
import DirectC.Proofs.TypingInvariant
import DirectC.Proofs.Grammar.Scoping
import DirectC.Proofs.LexicalScoping
import DirectC.Proofs.Grammar.Loops
import DirectC.Proofs.Termination
import DirectC.Proofs.Machine.Disassembly
import DirectC.Proofs.Lowering.Branches
import DirectC.Proofs.Lowering.InstructionStream
import DirectC.Proofs.ReadingFailures
import DirectC.Proofs.Bare
import DirectC.Proofs.Grammar.Erasure
import DirectC.Proofs.Grammar.Extension
import DirectC.Proofs.Spelling
import DirectC.Proofs.Terminals
import DirectC.Proofs.Tiling
import DirectC.Proofs.Rendering
import DirectC.Proofs.Concatenation
import DirectC.Proofs.PrintedText
import DirectC.Proofs.RoundTrip
import DirectC.Proofs.ExactSizes
import DirectC.Proofs.Evaluation
import DirectC.Proofs.ElementArithmetic
import DirectC.Proofs.Grammar.Layouts
import DirectC.Proofs.Lowering.SlotOffsets
import DirectC.Proofs.Narrowing
import DirectC.Proofs.Precedence
import DirectC.Proofs.ScopeDiscipline
import DirectC.Proofs.Places
import DirectC.Proofs.Machine.UniqueDecoding
import DirectC.Proofs.ImageHeaders
import DirectC.Proofs.HexListing
import DirectC.Proofs.HexDump
import DirectC.Proofs.AlignedSizes

import TriangleCompiler.Buffer
import TriangleCompiler.Buffer.Printer
import TriangleCompiler.Builtin
import TriangleCompiler.CommandLine
import TriangleCompiler.CommandLine.Arguments
import TriangleCompiler.CommandLine.Directory
import TriangleCompiler.CommandLine.Log
import TriangleCompiler.CommandLine.Options
import TriangleCompiler.CommandLine.Path
import TriangleCompiler.Compilation
import TriangleCompiler.Diagnostic
import TriangleCompiler.Fault
import TriangleCompiler.Generation
import TriangleCompiler.Link
import TriangleCompiler.Machine.Code
import TriangleCompiler.Machine.Instruction
import TriangleCompiler.Machine.Listing
import TriangleCompiler.Machine.Names
import TriangleCompiler.Machine.Storage
import TriangleCompiler.Main
import TriangleCompiler.NodeTable
import TriangleCompiler.Pass
import TriangleCompiler.Position
import TriangleCompiler.Program
import TriangleCompiler.Program.Literal
import TriangleCompiler.Program.Nodes
import TriangleCompiler.Program.Outline
import TriangleCompiler.Program.Parser
import TriangleCompiler.Program.Parser.Command
import TriangleCompiler.Program.Parser.Declaration
import TriangleCompiler.Program.Parser.Expression
import TriangleCompiler.Program.Parser.State
import TriangleCompiler.Program.Printer
import TriangleCompiler.Resolution
import TriangleCompiler.SimpleType
import TriangleCompiler.SymbolTable
import TriangleCompiler.Text.Alphabetic
import TriangleCompiler.Text.Combining
import TriangleCompiler.Text.Cursor
import TriangleCompiler.Text.Quoted
import TriangleCompiler.Text.Ranges
import TriangleCompiler.Text.Unprintable
import TriangleCompiler.Token
import TriangleCompiler.Token.Lexer
import TriangleCompiler.Typing
import TriangleCompiler.Proofs.Parser.ReadingExpressions
import TriangleCompiler.Proofs.Parser.ReadingCommands
import TriangleCompiler.Proofs.Parser.Grammar
import TriangleCompiler.Proofs.Parser.Soundness
import TriangleCompiler.Proofs.Parser.Completeness
import TriangleCompiler.Proofs.Parser.Correctness
import TriangleCompiler.Proofs.Parser.Numbering
import TriangleCompiler.Proofs.Parser.Density
import TriangleCompiler.Proofs.Passes
import TriangleCompiler.Proofs.Resolution.Events
import TriangleCompiler.Proofs.Resolution.Links
import TriangleCompiler.Proofs.Typing.Completeness
import TriangleCompiler.Proofs.Resolution.Scopes
import TriangleCompiler.Proofs.Typing.Soundness
import TriangleCompiler.Proofs.Typing.Correctness
import TriangleCompiler.Proofs.Generation.Layout
import TriangleCompiler.Proofs.Generation.Emission
import TriangleCompiler.Proofs.Generation.TypedCode
import TriangleCompiler.Proofs.Generation.Correctness
import TriangleCompiler.Proofs.Compilation.Stages
import TriangleCompiler.Proofs.Evaluation
import TriangleCompiler.Proofs.Generation.Simulation
import TriangleCompiler.Proofs.Generation.Preservation
import TriangleCompiler.Proofs.Compilation.Meaning
import TriangleCompiler.Proofs.Token.Rules
import TriangleCompiler.Proofs.Token.Tiling
import TriangleCompiler.Proofs.Resolution.Scoping
import TriangleCompiler.Proofs.Resolution.Correctness
import TriangleCompiler.Proofs.Machine.StackHeight
import TriangleCompiler.Proofs.Generation.Heights
import TriangleCompiler.Proofs.Generation.Patching
import TriangleCompiler.Proofs.Generation.Targets
import TriangleCompiler.Proofs.Generation.DirectCode
import TriangleCompiler.Proofs.Generation.Limit
import TriangleCompiler.Proofs.Generation.Overflow
import TriangleCompiler.Proofs.Compilation.Balance
import TriangleCompiler.Proofs.Resolution.Uses
import TriangleCompiler.Proofs.Compilation.Decorations
import TriangleCompiler.Proofs.Generation.TruthValues
import TriangleCompiler.Proofs.Compilation.Conditions
import TriangleCompiler.Proofs.Machine.Formats
import TriangleCompiler.Proofs.Compilation.Tolerance
import TriangleCompiler.Proofs.Parser.Rewording
import TriangleCompiler.Proofs.Resolution.Rewording
import TriangleCompiler.Proofs.Typing.Rewording
import TriangleCompiler.Proofs.Program.Frames
import TriangleCompiler.Proofs.Typing.Frames
import TriangleCompiler.Proofs.Typing.ErrorExpressions
import TriangleCompiler.Proofs.Generation.Rewording
import TriangleCompiler.Proofs.Compilation.Independence
import TriangleCompiler.Proofs.Parser.Names
import TriangleCompiler.Proofs.Resolution.Binders
import TriangleCompiler.Proofs.Token.Respelling
import TriangleCompiler.Proofs.Resolution.Renaming
import TriangleCompiler.Proofs.Compilation.Renaming
import TriangleCompiler.Proofs.Parser.ErrorNodes
import TriangleCompiler.Proofs.Parser.Movement
import TriangleCompiler.Proofs.Parser.Progress
import TriangleCompiler.Proofs.Parser.Detection
import TriangleCompiler.Proofs.CommandLine.Files
import TriangleCompiler.Proofs.CommandLine.Paths
import TriangleCompiler.Proofs.Compilation.Places
import TriangleCompiler.Proofs.CommandLine.Effects
import TriangleCompiler.Proofs.Machine.Routes
import TriangleCompiler.Proofs.Machine.CountingLoops
import TriangleCompiler.Proofs.Evaluation.Unchanged
import TriangleCompiler.Proofs.Generation.Frames
import TriangleCompiler.Proofs.Compilation.CountingLoops
import TriangleCompiler.Proofs.Program.Replacement
import TriangleCompiler.Proofs.Compilation.Surroundings
import TriangleCompiler.Proofs.Compilation.KnownConstants
import TriangleCompiler.Proofs.Token.Rendering
import TriangleCompiler.Proofs.Token.Lines
import TriangleCompiler.Proofs.Token.Coverage
import TriangleCompiler.Proofs.Resolution.WriteOnce
import TriangleCompiler.Proofs.Program.Phrases
import TriangleCompiler.Proofs.Outline.Printing
import TriangleCompiler.Proofs.Parser.Origins
import TriangleCompiler.Proofs.Outline.Sites
import TriangleCompiler.Proofs.Outline.Lines
import TriangleCompiler.Proofs.Outline.Links
import TriangleCompiler.Proofs.Typing.Locations
import TriangleCompiler.Proofs.Generation.Locations
import TriangleCompiler.Proofs.Compilation.Locations
import TriangleCompiler.Proofs.CommandLine.Input
import TriangleCompiler.Proofs.Outline.Writing
import TriangleCompiler.Proofs.Machine.Allocation
import TriangleCompiler.Proofs.Resolution.Tables

import JackToolchain.Counter
import JackToolchain.Token.Lexer
import JackToolchain.Vm.Reader
import JackToolchain.Symbol.Table
import JackToolchain.Jack.Expression.Code
import JackToolchain.Jack.Expression.Parser
import JackToolchain.Jack.Expression.Barrier
import JackToolchain.Jack.Session
import JackToolchain.Hack.Lowering
import JackToolchain.Hack.Assembler
import JackToolchain.Settings
import JackToolchain.Disk.FileTree
import JackToolchain.Arguments
import JackToolchain.Build
import JackToolchain.Main
import JackToolchain.Proofs.Jack.Written
import JackToolchain.Proofs.Jack.Precedence
import JackToolchain.Proofs.Jack.Reading
import JackToolchain.Proofs.Jack.Phrases
import JackToolchain.Proofs.Jack.Residuals
import JackToolchain.Proofs.Jack.ExpressionCompilation
import JackToolchain.Proofs.Hack.Assembly
import JackToolchain.Proofs.Hack.CallingConvention
import JackToolchain.Proofs.Hack.InstructionClasses
import JackToolchain.Proofs.Jack.Consumption
import JackToolchain.Proofs.Jack.LabelNumbers
import JackToolchain.Proofs.Jack.WrittenClass
import JackToolchain.Proofs.Jack.ClassRecognition
import JackToolchain.Proofs.Jack.Scoping
import JackToolchain.Proofs.Jack.ClassReading
import JackToolchain.Proofs.Jack.ExpressionResiduals
import JackToolchain.Proofs.Jack.StatementResiduals
import JackToolchain.Proofs.Jack.ClassResiduals
import JackToolchain.Proofs.Jack.SyntaxErrors
import JackToolchain.Proofs.Jack.Brackets
import JackToolchain.Proofs.Jack.BarrierReading
import JackToolchain.Proofs.Jack.Grammar
import JackToolchain.Proofs.Jack.OperandBalance
import JackToolchain.Proofs.Vm.ControlFlow
import JackToolchain.Proofs.Jack.StructuredFlow
import JackToolchain.Proofs.Hack.Legibility
import JackToolchain.Proofs.Hack.Acceptance
import JackToolchain.Proofs.Hack.LabelAccounts
import JackToolchain.Proofs.Hack.LabelDeclarations
import JackToolchain.Proofs.Hack.Linking
import JackToolchain.Proofs.Jack.LowerableCode
import JackToolchain.Proofs.Jack.ClassLimits
import JackToolchain.Proofs.Hack.Loading
import JackToolchain.Proofs.Program.SourceLabels
import JackToolchain.Proofs.Program.DistinctLabels
import JackToolchain.Proofs.Program.Processing
import JackToolchain.Proofs.Jack.SessionLabels
import JackToolchain.Proofs.Jack.StorageBounds
import JackToolchain.Proofs.Jack.WritableCode
import JackToolchain.Proofs.Program.WrittenUnits
import JackToolchain.Proofs.Jack.LabelOffset
import JackToolchain.Proofs.Program.SeparateCompilation
import JackToolchain.Proofs.Hack.SeenLines
import JackToolchain.Proofs.Program.Annotation
import JackToolchain.Proofs.Hack.Variables
import JackToolchain.Proofs.Program.LoadedUnits
import JackToolchain.Proofs.Program.StaticCells
import JackToolchain.Proofs.Build.Artifacts
import JackToolchain.Proofs.Hack.Comparisons
import JackToolchain.Proofs.Hack.Passes
import JackToolchain.Proofs.Token.LexicalGrammar
import JackToolchain.Proofs.Token.Spelling
import JackToolchain.Proofs.Disk.Lookup
import JackToolchain.Proofs.Disk.Contents
import JackToolchain.Proofs.Disk.Directories
import JackToolchain.Proofs.Build.Leaving
import JackToolchain.Proofs.Build.Reading
import JackToolchain.Proofs.Build.Reloading
import JackToolchain.Proofs.Build.Rebuilding
import JackToolchain.Proofs.Hack.Refusals
import JackToolchain.Proofs.Hack.Assemblability
import JackToolchain.Proofs.Hack.Bootstrap
import JackToolchain.Proofs.Hack.Mnemonics
import JackToolchain.Proofs.Jack.OperatorRuns
import JackToolchain.Proofs.Symbol.History
import JackToolchain.Proofs.Build.Discovery

import DroidsawHermes.Lib.Bytes
import DroidsawHermes.Lib.Loop
import DroidsawHermes.Lib.Sorted
import DroidsawHermes.Lib.Span
import DroidsawHermes.Parser.Read
import DroidsawHermes.Error
import DroidsawHermes.Header
import DroidsawHermes.Parser.DebugInfo
import DroidsawHermes.Parser.File
import DroidsawHermes.Parser.Sections
import DroidsawHermes.Parser.Functions
import DroidsawHermes.Parser.Selection
import DroidsawHermes.Parser.Validate
import DroidsawHermes.Parser.Accepted
import DroidsawHermes.Parser.Regions
import DroidsawHermes.Parser.BodyView
import DroidsawHermes.Parser.Strings
import DroidsawHermes.ParserOracle
import DroidsawHermes.Parser.RawEntries
import DroidsawHermes.Emit.BitPack
import DroidsawHermes.Emit.Tables
import DroidsawHermes.Emit.Pipelines
import DroidsawHermes.Emit.Transparent
import DroidsawHermes.RoundTrip.Equiv
import DroidsawHermes.RoundTrip.Reparse
import DroidsawHermes.Parser.LayoutSpec
import DroidsawHermes.Parser.LayoutChoice
import DroidsawHermes.Parser.Containment
import DroidsawHermes.Parser.Literals
import DroidsawHermes.Parser.BigInt
import DroidsawHermes.Parser.SourceLocations
import DroidsawHermes.Parser.StringText
import DroidsawHermes.Parser.LayoutReaders
import DroidsawHermes.Lib.OrdMap
import DroidsawHermes.Lib.Dfs
import DroidsawHermes.Lib.Segments
import DroidsawHermes.Lib.Moves
import DroidsawHermes.Lib.Edits
import DroidsawHermes.Decompile.Opcodes
import DroidsawHermes.Decompile.Decode
import DroidsawHermes.Decompile.Cfg
import DroidsawHermes.Decompile.CfgBlocks
import DroidsawHermes.Decompile.TablesV95
import DroidsawHermes.Decompile.CfgBuilt
import DroidsawHermes.Decompile.CfgWellFormed
import DroidsawHermes.Decompile.CfgOracle
import DroidsawHermes.Decompile.CfgShapes
import DroidsawHermes.Decompile.CfgRefines
import DroidsawHermes.Decompile.CfgHandlers
import DroidsawHermes.Decompile.SwitchTables
import DroidsawHermes.Decompile.SwitchWindow
import DroidsawHermes.Decompile.BlockOrder
import DroidsawHermes.Decompile.Ssa
import DroidsawHermes.Decompile.PhiCopies
import DroidsawHermes.Decompile.Passes
import DroidsawHermes.Lib.Binary64
import DroidsawHermes.Decompile.Simplify
import DroidsawHermes.Decompile.BuildSsa
import DroidsawHermes.Decompile.Environments
import DroidsawHermes.Decompile.PatternRewrite
import DroidsawHermes.Decompile.Closed
import DroidsawHermes.Decompile.PatternImages
import DroidsawHermes.Decompile.PatternClosed
import DroidsawHermes.Decompile.CommonBuilder
import DroidsawHermes.Decompile.SsaForm
import DroidsawHermes.Decompile.DecodeTiles
import DroidsawHermes.Lib.Runs
import DroidsawHermes.Scanner
import DroidsawHermes.Structure.Stmt
import DroidsawHermes.Structure.Verify
import DroidsawHermes.Decompile.Expr
import DroidsawHermes.Lib.Template
import DroidsawHermes.Decompile.TemplateText
import DroidsawHermes.Lib.RegExpLiteral
import DroidsawHermes.Decompile.RegExpText
import DroidsawHermes.Lib.StringLiteral
import DroidsawHermes.Structure.StringText
import DroidsawHermes.Structure.FormatOp
import DroidsawHermes.Structure.BuildExpr
import DroidsawHermes.Structure.CallReceiver
import DroidsawHermes.Decompile.BuiltOperands
import DroidsawHermes.Decompile.Instructions
import DroidsawHermes.Decompile.Addresses
import DroidsawHermes.Structure.Placeholder
import DroidsawHermes.Structure.OperandRoles
import DroidsawHermes.Structure.OperandAgreement
import DroidsawHermes.Structure.Conditions
import DroidsawHermes.Structure.BranchPolarity
import DroidsawHermes.Lib.Control
import DroidsawHermes.Structure.Exec
import DroidsawHermes.Structure.EarlyReturns
import DroidsawHermes.Structure.ApplyDeep
import DroidsawHermes.Structure.SwitchRecovery
import DroidsawHermes.Lib.Scan
import DroidsawHermes.Structure.GeneratorCleanup
import DroidsawHermes.Structure.ForInRecovery
import DroidsawHermes.Lib.Separated
import DroidsawHermes.Structure.LiteralBuffers
import DroidsawHermes.Structure.LiteralSplit
import DroidsawHermes.Lib.DfsTree
import DroidsawHermes.Structure.BackEdges
import DroidsawHermes.Emit.BitFields
import DroidsawHermes.Structure.TrapStripping
import DroidsawHermes.Lib.Lines
import DroidsawHermes.Structure.HoistPreamble
import DroidsawHermes.Structure.LiteralFolds
import DroidsawHermes.Structure.Optimize
import DroidsawHermes.Structure.TryCatchRecovery
import DroidsawHermes.Structure.CatchesApart
import DroidsawHermes.Structure.ClassRecovery
import DroidsawHermes.Structure.AsyncLinearization
import DroidsawHermes.Decompile.DeadCode
import DroidsawHermes.Decompile.FrameRuns
import DroidsawHermes.Lib.FlowGraph
import DroidsawHermes.Decompile.FlowRuns
import DroidsawHermes.Decompile.RegisterRuns
import DroidsawHermes.Decompile.Versions
import DroidsawHermes.Decompile.SsaRuns
import DroidsawHermes.Decompile.RegisterPrograms
import DroidsawHermes.Lib.Driven
import DroidsawHermes.Structure.Dispatcher
import DroidsawHermes.Lib.Rounding
import DroidsawHermes.Decompile.ConstantFolds
import DroidsawHermes.Decompile.ConstantRuns
import DroidsawHermes.Lib.Steps
import DroidsawHermes.Decompile.CodeRuns
import DroidsawHermes.Decompile.CoalescedNames
import DroidsawHermes.Lib.SharedNames
import DroidsawHermes.Decompile.NamedRuns
import DroidsawHermes.Lib.Precedence
import DroidsawHermes.Decompile.OperatorText
import DroidsawHermes.Lib.Decimal
import DroidsawHermes.Structure.VarNames
import DroidsawHermes.Structure.FoldOrder
import DroidsawHermes.Structure.FoldMatches
import DroidsawHermes.Decompile.ParamNames
import DroidsawHermes.Decompile.Exits
import DroidsawHermes.Structure.ExitValues

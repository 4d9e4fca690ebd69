import WatLink.Text.Blank
import WatLink.Text.DecimalDigit
import WatLink.Text.Printable
import WatLink.Text.Quoted
import WatLink.Text.Utf8
import WatLink.Tree.Basic
import WatLink.Tree.Lexeme
import WatLink.Tree.Reader
import WatLink.Tree.Printer
import WatLink.Tree.Layout
import WatLink.Tree.Walk
import WatLink.Numeral.Integer
import WatLink.Binary64.Basic
import WatLink.Binary64.Rounding
import WatLink.Binary64.Arithmetic
import WatLink.Binary64.Decimal
import WatLink.Binary64.Spelling
import WatLink.Binary64.Reading
import WatLink.StringLiteral
import WatLink.Module.IndexSpace
import WatLink.Module.Sorting
import WatLink.Constant.Value
import WatLink.Constant.Operator
import WatLink.Constant.Evaluation
import WatLink.Text.Split
import WatLink.Tree.Revision
import WatLink.Numeral.Decimal
import WatLink.Constant.Folding
import WatLink.Link.Pass
import WatLink.Link.Error
import WatLink.Link.Journal
import WatLink.Store.Path
import WatLink.Store.Disk
import WatLink.Store.FileStore
import WatLink.Memory.Declaration
import WatLink.Memory.Segment
import WatLink.Memory.Sizing
import WatLink.Start.Merging
import WatLink.Import.Session
import WatLink.Import.Expansion
import WatLink.Import.Inlining
import WatLink.Link.Linker
import WatLink.Text.LineEnds
import WatLink.Text.ShellWords
import WatLink.Settings.Datum
import WatLink.Settings.Scalar
import WatLink.Settings.Yaml
import WatLink.Command.Encoder
import WatLink.Settings.Basic
import WatLink.Settings.File
import WatLink.Command.Arguments
import WatLink.Command.Run
import WatLink.Main
import WatLink.Proofs.TreeTokens
import WatLink.Proofs.TokenLayout
import WatLink.Proofs.LayoutScanning
import WatLink.Proofs.ScannedLayout
import WatLink.Proofs.ParserGrammar
import WatLink.Proofs.PrinterLayout
import WatLink.Proofs.FileExpansion
import WatLink.Proofs.PrintingFixedPoint
import WatLink.Proofs.ImportRoutes
import WatLink.Proofs.ExpansionRun
import WatLink.Proofs.FileInquiries
import WatLink.Proofs.ImportSplitting
import WatLink.Proofs.ImportCycles
import WatLink.Proofs.ExceptLaws
import WatLink.Proofs.IntegerLiterals
import WatLink.Proofs.WordArithmetic
import WatLink.Proofs.MaskedFormulas
import WatLink.Proofs.EvaluatorRequests
import WatLink.Proofs.IntegerExpressions
import WatLink.Proofs.TreeRewriting
import WatLink.Proofs.InsertedTexts
import WatLink.Proofs.IndexSpaces
import WatLink.Proofs.MemorySizing
import WatLink.Proofs.PassEffects
import WatLink.Proofs.NodeLaws
import WatLink.Proofs.SettledModules
import WatLink.Proofs.LinkIdempotence
import WatLink.Proofs.PrintableOutput
import WatLink.Proofs.StableIndices
import WatLink.Proofs.SortedSizing
import WatLink.Proofs.PassFailures
import WatLink.Proofs.LinkRetry
import WatLink.Proofs.NumberLimits
import WatLink.Proofs.ConstantErrors
import WatLink.Proofs.DataSizes
import WatLink.Proofs.ErrorFamilies
import WatLink.Proofs.StringAtoms
import WatLink.Proofs.KeyedLists
import WatLink.Proofs.MemoryMinimums
import WatLink.Proofs.DiskWrites
import WatLink.Proofs.CommandOutput
import WatLink.Proofs.StoreSnapshots
import WatLink.Proofs.DisturbedLinking
import WatLink.Proofs.ConstantMeaning
import WatLink.Proofs.GlobalCycles
import WatLink.Proofs.RevisionOrder
import WatLink.Proofs.FoldingOrder
import WatLink.Proofs.NumeralRewriting
import WatLink.Proofs.BinaryNumbers
import WatLink.Proofs.SeventeenDigits
import WatLink.Proofs.SpelledDecimals
import WatLink.Proofs.ProperNumbers
import WatLink.Proofs.ConstantReadBack
import WatLink.Proofs.MergedStarts
import WatLink.Proofs.StringEscapes
import WatLink.Proofs.SizingFailures
import WatLink.Proofs.InstructionSignatures
import WatLink.Proofs.ConstantTypes
import WatLink.Proofs.DecimalTexts
import WatLink.Proofs.DecimalTrees
import WatLink.Proofs.NumeralOrder
import WatLink.Proofs.LiteralBytes
import WatLink.Proofs.ServedFiles
import WatLink.Proofs.InlinedBytes
import WatLink.Proofs.SourceOffsets
import WatLink.Proofs.RevisionStages
import WatLink.Proofs.FoldedOffsets
import WatLink.Proofs.CategoryGroups
import WatLink.Proofs.LiteralValues
import WatLink.Proofs.SyntaxCulprits
import WatLink.Proofs.NearestEven
import WatLink.Proofs.DoubleRounding
import WatLink.Proofs.PassSelection
import WatLink.Proofs.TreeTraversals

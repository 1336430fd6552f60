import ActionItems.Annotation
import ActionItems.CommandLine
import ActionItems.Comment
import ActionItems.Concurrency
import ActionItems.Decimal.Shortest
import ActionItems.DirectoryRules
import ActionItems.Extraction
import ActionItems.Fault
import ActionItems.FileTree
import ActionItems.Finding
import ActionItems.Finding.Codec
import ActionItems.Glob
import ActionItems.GlobSet
import ActionItems.IgnoreRule
import ActionItems.Json.Basic
import ActionItems.Json.Decode
import ActionItems.Json.Printer
import ActionItems.Json.Reader
import ActionItems.Language
import ActionItems.LineScan
import ActionItems.Main
import ActionItems.Metadata
import ActionItems.Path
import ActionItems.Program
import ActionItems.Proofs.Cutting
import ActionItems.Proofs.PhysicalLines
import ActionItems.Report
import ActionItems.Scan
import ActionItems.Settings
import ActionItems.Syntax.Chart
import ActionItems.Syntax.EcmascriptGrammar
import ActionItems.Syntax.EcmascriptLexis
import ActionItems.Syntax.Lexis
import ActionItems.Syntax.Literal
import ActionItems.Syntax.Parse
import ActionItems.Syntax.PhpGrammar
import ActionItems.Syntax.PhpLexis
import ActionItems.Syntax.Repair
import ActionItems.Syntax.Rule
import ActionItems.Syntax.Run
import ActionItems.Syntax.Table
import ActionItems.Syntax.Tree
import ActionItems.Tag
import ActionItems.Tally
import ActionItems.Text.Ascending
import ActionItems.Text.Basic
import ActionItems.Text.Quoted
import ActionItems.Text.Utf8
import ActionItems.Text.Word
import ActionItems.Walk
import ActionItems.Proofs.CommentLines
import ActionItems.Proofs.LineScanBytes
import ActionItems.Proofs.MetadataLayout
import ActionItems.Proofs.CommentOrder
import ActionItems.Proofs.FindingOrder
import ActionItems.Proofs.RelativePath
import ActionItems.Proofs.WalkPaths
import ActionItems.Proofs.ScanOrder
import ActionItems.Proofs.FirstTag
import ActionItems.Proofs.LineComments
import ActionItems.Proofs.TagSpellings
import ActionItems.Proofs.AnnotationForm
import ActionItems.Proofs.ScanAccounts
import ActionItems.Proofs.JsonText
import ActionItems.Proofs.ReportRoundTrip
import ActionItems.Proofs.WorkerPool
import ActionItems.Proofs.PatternSets
import ActionItems.Proofs.ScanFaults
import ActionItems.Proofs.ScanSessions
import ActionItems.Proofs.FileTreeWrites
import ActionItems.Proofs.DryRun
import ActionItems.Proofs.EntryNames
import ActionItems.Proofs.WalkFilters
import ActionItems.Proofs.IgnoreFiles
import ActionItems.Proofs.LinkFreeTrees
import ActionItems.Proofs.Rerun
import ActionItems.Proofs.InlineMetadata
import ActionItems.Proofs.LineScanRule
import ActionItems.Proofs.ScanNotices
import ActionItems.Proofs.InlineLinks
import ActionItems.Proofs.CommentStyles
import ActionItems.Proofs.ExtensionForms
import ActionItems.Proofs.MarkdownLines
import ActionItems.Proofs.StableSort
import ActionItems.Proofs.RootSpellings
import ActionItems.Proofs.Collecting
import ActionItems.Proofs.ShownMetadata
import ActionItems.Proofs.PartialSettings
import ActionItems.Proofs.FirstError
import ActionItems.Proofs.ParserSlots

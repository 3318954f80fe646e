import PluginAtlas.Decimal.Binary64
import PluginAtlas.Describe.Batch
import PluginAtlas.Describe.Client
import PluginAtlas.Describe.Reply
import PluginAtlas.Digest.Md5
import PluginAtlas.Disk
import PluginAtlas.Failure
import PluginAtlas.Graph.Assembly
import PluginAtlas.Graph.Basic
import PluginAtlas.Graph.Fields
import PluginAtlas.Graph.Store
import PluginAtlas.Ident
import PluginAtlas.Json.Basic
import PluginAtlas.Json.Reader
import PluginAtlas.Json.Writer
import PluginAtlas.Log
import PluginAtlas.Manifest
import PluginAtlas.Notice
import PluginAtlas.Path
import PluginAtlas.Php.Callables
import PluginAtlas.Php.Declarations
import PluginAtlas.Php.EntryPoints
import PluginAtlas.Php.Extract
import PluginAtlas.Php.Grammar.Expression
import PluginAtlas.Php.Grammar.Lexicon
import PluginAtlas.Php.Grammar.Name
import PluginAtlas.Php.Grammar.Statement
import PluginAtlas.Php.Grammar.Text
import PluginAtlas.Php.Hooks
import PluginAtlas.Php.Includes
import PluginAtlas.Php.Literal
import PluginAtlas.Php.Parse
import PluginAtlas.Php.Scope
import PluginAtlas.Php.Storage
import PluginAtlas.Plugin.Analysis
import PluginAtlas.Plugin.Content
import PluginAtlas.Plugin.FileKind
import PluginAtlas.Plugin.Header
import PluginAtlas.Plugin.Ignore
import PluginAtlas.Plugin.Scan
import PluginAtlas.Proofs.AjaxLinks
import PluginAtlas.Proofs.BatchedDescriptions
import PluginAtlas.Proofs.BlockOwnership
import PluginAtlas.Proofs.ClassCallbacks
import PluginAtlas.Proofs.ClassReferences
import PluginAtlas.Proofs.Contributions
import PluginAtlas.Proofs.DecodedSources
import PluginAtlas.Proofs.ExportedDocument
import PluginAtlas.Proofs.Expressions
import PluginAtlas.Proofs.ExtractorReports
import PluginAtlas.Proofs.FailureIsolation
import PluginAtlas.Proofs.FamilyUnion
import PluginAtlas.Proofs.FileReferences
import PluginAtlas.Proofs.GraphSchema
import PluginAtlas.Proofs.Hazards
import PluginAtlas.Proofs.HeaderLines
import PluginAtlas.Proofs.HookCallbacks
import PluginAtlas.Proofs.ImportTable
import PluginAtlas.Proofs.JsonFronts
import PluginAtlas.Proofs.JsonIntegers
import PluginAtlas.Proofs.JsonLayouts
import PluginAtlas.Proofs.JsonRoundTrip
import PluginAtlas.Proofs.JsonSpellings
import PluginAtlas.Proofs.KeptReaders
import PluginAtlas.Proofs.LastArrayLine
import PluginAtlas.Proofs.LexicalScope
import PluginAtlas.Proofs.NameResolution
import PluginAtlas.Proofs.NamespaceInForce
import PluginAtlas.Proofs.OutputLines
import PluginAtlas.Proofs.ParsedCalls
import PluginAtlas.Proofs.ParsedLiterals
import PluginAtlas.Proofs.PathResolution
import PluginAtlas.Proofs.QuoteStyles
import PluginAtlas.Proofs.QuotedLiterals
import PluginAtlas.Proofs.Recording
import PluginAtlas.Proofs.RegisteredEnds
import PluginAtlas.Proofs.Registration
import PluginAtlas.Proofs.RelationKeys
import PluginAtlas.Proofs.RelativePaths
import PluginAtlas.Proofs.Replay
import PluginAtlas.Proofs.ReplyFronts
import PluginAtlas.Proofs.RestSpellings
import PluginAtlas.Proofs.ScannedFiles
import PluginAtlas.Proofs.Segments
import PluginAtlas.Proofs.SharedScope
import PluginAtlas.Proofs.SourceOrder
import PluginAtlas.Proofs.SourcePositions
import PluginAtlas.Proofs.SourcePreviews
import PluginAtlas.Proofs.TextLines
import PluginAtlas.Proofs.Trail
import PluginAtlas.Proofs.TruncatedHeads
import PluginAtlas.Proofs.UnscannedFiles
import PluginAtlas.Proofs.Utf8RoundTrip
import PluginAtlas.Proofs.WalkSchedule
import PluginAtlas.Proofs.WrappedReplies
import PluginAtlas.Proofs.WrittenFiles
import PluginAtlas.Schema.Checked
import PluginAtlas.Schema.Number
import PluginAtlas.Script.CommandLine
import PluginAtlas.Script.Detect
import PluginAtlas.Script.Findings
import PluginAtlas.Script.Grammar.Expression
import PluginAtlas.Script.Grammar.Lexicon
import PluginAtlas.Script.Grammar.Markup
import PluginAtlas.Script.Grammar.Statement
import PluginAtlas.Script.Grammar.Types
import PluginAtlas.Script.Item
import PluginAtlas.Script.Parse
import PluginAtlas.Script.Payload
import PluginAtlas.Script.Reader
import PluginAtlas.Script.Registry
import PluginAtlas.Service
import PluginAtlas.Settings
import PluginAtlas.SourceFile
import PluginAtlas.Syntax.Rule
import PluginAtlas.Syntax.Tree
import PluginAtlas.Syntax.Walk
import PluginAtlas.Text.Basic
import PluginAtlas.Text.Blank
import PluginAtlas.Text.Casing
import PluginAtlas.Text.CasingData
import PluginAtlas.Text.Digit
import PluginAtlas.Text.Letter
import PluginAtlas.Text.Pattern
import PluginAtlas.Text.Quoted
import PluginAtlas.Text.Utf8
import PluginAtlas.Timestamp
import PluginAtlas.Traced

import DesignTokens.Archive.Gzip
import DesignTokens.Archive.Tar
import DesignTokens.Command.Arguments
import DesignTokens.Command.Host
import DesignTokens.Command.Run
import DesignTokens.Decimal.Exact
import DesignTokens.Decimal.Fixed
import DesignTokens.Decimal.Nearest
import DesignTokens.Decimal.Remainder
import DesignTokens.Decimal.Shortest
import DesignTokens.Edit
import DesignTokens.File.Error
import DesignTokens.File.System
import DesignTokens.File.UnixPath
import DesignTokens.Interchange.Export
import DesignTokens.Interchange.Import
import DesignTokens.Interchange.Names
import DesignTokens.Json.Basic
import DesignTokens.Json.Decode
import DesignTokens.Json.Outline
import DesignTokens.Json.Parser
import DesignTokens.Json.Printer
import DesignTokens.Main
import DesignTokens.Ordered
import DesignTokens.Output.Android
import DesignTokens.Output.Format
import DesignTokens.Output.JsonFile
import DesignTokens.Output.Platform
import DesignTokens.Output.Script
import DesignTokens.Output.StyleSheet
import DesignTokens.Output.Swift
import DesignTokens.Output.ValueText
import DesignTokens.Pipeline.Assignment
import DesignTokens.Pipeline.Basic
import DesignTokens.Pipeline.Build
import DesignTokens.Pipeline.BuildConfig
import DesignTokens.Pipeline.Document
import DesignTokens.Pipeline.Effective
import DesignTokens.Pipeline.Error
import DesignTokens.Pipeline.Layers
import DesignTokens.Pipeline.Pages
import DesignTokens.Pipeline.Variables
import DesignTokens.Project.Basic
import DesignTokens.Project.Build
import DesignTokens.Project.Bundle
import DesignTokens.Project.Error
import DesignTokens.Project.FileName
import DesignTokens.Sequence
import DesignTokens.Text.Alphanumeric
import DesignTokens.Text.Blank
import DesignTokens.Text.LetterCase
import DesignTokens.Text.Reader
import DesignTokens.Text.Split
import DesignTokens.Token.Alias
import DesignTokens.Token.Document
import DesignTokens.Token.Error
import DesignTokens.Token.Flat
import DesignTokens.Token.Merge
import DesignTokens.Token.Path
import DesignTokens.Token.Store
import DesignTokens.Token.Tree
import DesignTokens.Transform.Basic
import DesignTokens.Transform.Matcher
import DesignTokens.Transform.NameCase
import DesignTokens.Value.Color
import DesignTokens.Value.Duration
import DesignTokens.Value.Grammar
import DesignTokens.Value.Number
import DesignTokens.Value.Size
import DesignTokens.Proofs.Store.WellFormed
import DesignTokens.Proofs.Store.Subtree
import DesignTokens.Proofs.Edit
import DesignTokens.Proofs.Store.Outcome
import DesignTokens.Proofs.Store.Growth
import DesignTokens.Proofs.Map
import DesignTokens.Proofs.Pipeline.Consistency
import DesignTokens.Proofs.Pipeline.Slots
import DesignTokens.Proofs.Store.Loading
import DesignTokens.Proofs.Store.Runs
import DesignTokens.Proofs.Pipeline.Build
import DesignTokens.Proofs.Pipeline.References
import DesignTokens.Proofs.Token.Resolution
import DesignTokens.Proofs.Store.Refinement
import DesignTokens.Proofs.Project.Outputs
import DesignTokens.Proofs.Pipeline.Provenance
import DesignTokens.Proofs.Pipeline.Refusals
import DesignTokens.Proofs.Pipeline.Orders
import DesignTokens.Proofs.Pipeline.GroupOrigins
import DesignTokens.Proofs.Pipeline.PathChanges
import DesignTokens.Proofs.Pipeline.Assignments
import DesignTokens.Proofs.Pipeline.Renaming
import DesignTokens.Proofs.Pipeline.RenamedPipeline
import DesignTokens.Proofs.Pipeline.Revivals
import DesignTokens.Proofs.Pipeline.RenamedBuilds
import DesignTokens.Proofs.Token.Marking
import DesignTokens.Proofs.Pipeline.ViewResolution
import DesignTokens.Proofs.Pipeline.SlotPages
import DesignTokens.Proofs.Pipeline.Addressing
import DesignTokens.Proofs.Entries
import DesignTokens.Proofs.Token.Writing
import DesignTokens.Proofs.Decimal.Finite
import DesignTokens.Proofs.Json.Proper
import DesignTokens.Proofs.Interchange.Reading
import DesignTokens.Proofs.Interchange.Portable
import DesignTokens.Proofs.Interchange.RoundTrip
import DesignTokens.Proofs.Interchange.Reports
import DesignTokens.Proofs.Json.Parsing
import DesignTokens.Proofs.Store.Inverse
import DesignTokens.Proofs.Pipeline.Selections
import DesignTokens.Proofs.Project.Filtered
import DesignTokens.Proofs.Token.Values
import DesignTokens.Proofs.Json.Decoding
import DesignTokens.Proofs.Store.Documents
import DesignTokens.Proofs.Project.Saving
import DesignTokens.Proofs.Token.Acyclic
import DesignTokens.Proofs.Pipeline.Visibility
import DesignTokens.Proofs.Pipeline.Contributions
import DesignTokens.Proofs.Reader
import DesignTokens.Proofs.Value.Syntax
import DesignTokens.Proofs.Token.PartialLists
import DesignTokens.Proofs.Choices
import DesignTokens.Proofs.Pipeline.Enumeration
import DesignTokens.Proofs.Project.Overrides
import DesignTokens.Proofs.Pipeline.PageCreation
import DesignTokens.Proofs.Transform.LastApplied
import DesignTokens.Proofs.Token.Budgets
import DesignTokens.Proofs.Token.Listing
import DesignTokens.Proofs.Token.Planting
import DesignTokens.Proofs.Store.Setting
import DesignTokens.Proofs.File.UnixPath
import DesignTokens.Proofs.Project.BundlePaths
import DesignTokens.Proofs.Output.Nested
import DesignTokens.Proofs.File.Changes
import DesignTokens.Proofs.Archive.Names
import DesignTokens.Proofs.Project.Bundles
import DesignTokens.Proofs.Command.Writing
import DesignTokens.Proofs.Command.Outputs
import DesignTokens.Proofs.Output.Layout
import DesignTokens.Proofs.Output.BlockComments
import DesignTokens.Proofs.Output.LineComments
import DesignTokens.Proofs.Json.OneLine
import DesignTokens.Proofs.Output.SwiftStrings
import DesignTokens.Proofs.Text.LetterCase
import DesignTokens.Proofs.Transform.AsciiNames
import DesignTokens.Proofs.Output.LegalNames
import DesignTokens.Proofs.Pipeline.MovedLayers
import DesignTokens.Proofs.Pipeline.AddedLayers
import DesignTokens.Proofs.Pipeline.PageNames
import DesignTokens.Proofs.Json.Quoting
import DesignTokens.Proofs.Output.ScriptTypes
import DesignTokens.Proofs.Output.ScriptExports
import DesignTokens.Proofs.Token.Remerging
import DesignTokens.Proofs.Text.LowerCase
import DesignTokens.Proofs.Transform.DelimitedNames
import DesignTokens.Proofs.Pipeline.FreshSearch
import DesignTokens.Proofs.Transform.PathPrefixes

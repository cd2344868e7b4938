import ShaderLink.Diagnostic
import ShaderLink.Edit.Conditional
import ShaderLink.Edit.Splice
import ShaderLink.Edit.Words
import ShaderLink.Fault
import ShaderLink.Link.Emit
import ShaderLink.Link.Error
import ShaderLink.Link.Fresh
import ShaderLink.Link.Instance
import ShaderLink.Link.Output
import ShaderLink.Module.Parsed
import ShaderLink.Module.Path
import ShaderLink.Module.Query
import ShaderLink.Parse.Basic
import ShaderLink.Parse.Body
import ShaderLink.Parse.Import
import ShaderLink.Parse.Report
import ShaderLink.Parse.Tokens
import ShaderLink.Parse.Unit
import ShaderLink.Registry
import ShaderLink.Resolve.Build
import ShaderLink.Resolve.Map
import ShaderLink.Resolve.Overlap
import ShaderLink.Scope
import ShaderLink.SourceMap.Basic
import ShaderLink.SourceMap.Merge
import ShaderLink.Syntax.Element
import ShaderLink.Syntax.ImportTree
import ShaderLink.Text.Alnum
import ShaderLink.Text.Blank
import ShaderLink.Text.Ident
import ShaderLink.Text.Offset
import ShaderLink.Text.Span
import ShaderLink.Token.Basic
import ShaderLink.Token.Lexer
import ShaderLink.Proofs.Sorting
import ShaderLink.Proofs.Scope.Binding
import ShaderLink.Proofs.SourceMap.Tiling
import ShaderLink.Proofs.SourceMap.Lookup
import ShaderLink.Proofs.SourceMap.Compact
import ShaderLink.Proofs.SourceMap.Merge
import ShaderLink.Proofs.SourceMap.Compacted
import ShaderLink.Proofs.Link.Fresh
import ShaderLink.Proofs.Link.Steps
import ShaderLink.Proofs.Link.Divergence
import ShaderLink.Proofs.Link.Locations
import ShaderLink.Proofs.Resolve.Resolution
import ShaderLink.Proofs.Resolve.Targets
import ShaderLink.Proofs.Resolve.Ambiguity
import ShaderLink.Proofs.Link.Growth
import ShaderLink.Proofs.Link.Visits
import ShaderLink.Proofs.Link.Names
import ShaderLink.Proofs.Link.Reach
import ShaderLink.Proofs.Link.Emitted
import ShaderLink.Proofs.Parse.Reading
import ShaderLink.Proofs.Parse.Items
import ShaderLink.Proofs.Module.Layout
import ShaderLink.Proofs.Registry.Consistency
import ShaderLink.Proofs.Text.Slicing
import ShaderLink.Proofs.Edit.Splice
import ShaderLink.Proofs.Edit.SpliceMap
import ShaderLink.Proofs.Edit.SpliceCopies
import ShaderLink.Proofs.Edit.ConditionalLines
import ShaderLink.Proofs.Edit.ConditionalBlocks
import ShaderLink.Proofs.Token.Tiling
import ShaderLink.Proofs.Edit.Renaming
import ShaderLink.Proofs.Parse.Budget
import ShaderLink.Proofs.Parse.Forward
import ShaderLink.Proofs.Token.Lexemes
import ShaderLink.Proofs.Parse.ImportSpelling
import ShaderLink.Proofs.Parse.TreeReading
import ShaderLink.Proofs.Parse.ImportLines
import ShaderLink.Proofs.Edit.DirectiveFree
import ShaderLink.Proofs.Module.ImportDialects
import ShaderLink.Proofs.Parse.Progress
import ShaderLink.Proofs.Module.Checks
import ShaderLink.Proofs.Module.DeclaredPath
import ShaderLink.Proofs.Parse.Spelling
import ShaderLink.Proofs.Module.References
import ShaderLink.Proofs.Edit.KeptBytes
import ShaderLink.Proofs.Link.Standalone
import ShaderLink.Proofs.SourceMap.Pieces
import ShaderLink.Proofs.Module.Exports
import ShaderLink.Proofs.Link.Modules
import ShaderLink.Proofs.Link.Directives
import ShaderLink.Proofs.Resolve.LongestOverlap
import ShaderLink.Proofs.Syntax.ImportLeaves
import ShaderLink.Proofs.Scope.Links

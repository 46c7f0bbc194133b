import ApiCatalog.Analysis.Basic
import ApiCatalog.Catalog.Declaration
import ApiCatalog.Catalog.Encode
import ApiCatalog.Catalog.Module
import ApiCatalog.Code.Comments
import ApiCatalog.Code.Exports
import ApiCatalog.Code.ExpressionType
import ApiCatalog.Code.Pattern
import ApiCatalog.Code.Reader
import ApiCatalog.Command.Arguments
import ApiCatalog.Command.Run
import ApiCatalog.Component.Basic
import ApiCatalog.Component.Comment
import ApiCatalog.Component.Markup
import ApiCatalog.Component.Props
import ApiCatalog.Component.Script
import ApiCatalog.Component.Template
import ApiCatalog.Component.Union
import ApiCatalog.Config.Basic
import ApiCatalog.Config.Load
import ApiCatalog.Decimal.Double
import ApiCatalog.Decimal.Floating
import ApiCatalog.Decimal.Shortest
import ApiCatalog.DocComment.Basic
import ApiCatalog.DocComment.Clean
import ApiCatalog.DocComment.Link
import ApiCatalog.Json.Basic
import ApiCatalog.Json.Reader
import ApiCatalog.Json.Writer
import ApiCatalog.Library.Duplicates
import ApiCatalog.Library.Generate
import ApiCatalog.Library.Wrapper
import ApiCatalog.Link.Basic
import ApiCatalog.Link.Resolve
import ApiCatalog.Main
import ApiCatalog.Package.Manifest
import ApiCatalog.Pattern.Basic
import ApiCatalog.Pattern.Reader
import ApiCatalog.Program.Index
import ApiCatalog.Proofs.Catalog.Decode
import ApiCatalog.Proofs.Catalog.Order
import ApiCatalog.Proofs.Code.DefaultExport
import ApiCatalog.Proofs.Code.FirstExport
import ApiCatalog.Proofs.Code.Keeping
import ApiCatalog.Proofs.Json.RoundTrip
import ApiCatalog.Proofs.Library.DefaultLinks
import ApiCatalog.Proofs.Library.FileOrder
import ApiCatalog.Proofs.Library.Modules
import ApiCatalog.Proofs.Link.Exporters
import ApiCatalog.Proofs.Link.ModuleOrder
import ApiCatalog.Proofs.Link.Search
import ApiCatalog.Proofs.Link.StarClosure
import ApiCatalog.Proofs.Report.Run
import ApiCatalog.Proofs.Source.Collect
import ApiCatalog.Proofs.Source.ModulePath
import ApiCatalog.Report.Diagnostic
import ApiCatalog.Report.Failure
import ApiCatalog.Report.Log
import ApiCatalog.Report.Noted
import ApiCatalog.Source.File
import ApiCatalog.Source.Options
import ApiCatalog.Source.Path
import ApiCatalog.Source.Read
import ApiCatalog.Source.Scope
import ApiCatalog.Source.Tree
import ApiCatalog.Syntax.Class
import ApiCatalog.Syntax.Cursor
import ApiCatalog.Syntax.Expression
import ApiCatalog.Syntax.Grammar
import ApiCatalog.Syntax.Kind
import ApiCatalog.Syntax.Lexeme
import ApiCatalog.Syntax.LineEnd
import ApiCatalog.Syntax.Node
import ApiCatalog.Syntax.Parser
import ApiCatalog.Syntax.Program
import ApiCatalog.Syntax.Statement
import ApiCatalog.Syntax.Type
import ApiCatalog.Text.Blank
import ApiCatalog.Text.Digit
import ApiCatalog.Text.Lines
import ApiCatalog.Text.Printable
import ApiCatalog.Text.Quoted
import ApiCatalog.Text.WordChar
import ApiCatalog.Watch.Basic
import ApiCatalog.Yaml.Base64
import ApiCatalog.Yaml.Cursor
import ApiCatalog.Yaml.Layout
import ApiCatalog.Yaml.Node
import ApiCatalog.Yaml.Scalar
import ApiCatalog.Yaml.Tag
import ApiCatalog.Yaml.Token
import ApiCatalog.Yaml.Value
import ApiCatalog.Proofs.Library.Closed
import ApiCatalog.Proofs.Analysis.Diagnostics
import ApiCatalog.Proofs.Analysis.Batch
import ApiCatalog.Proofs.Library.LocalEdit
import ApiCatalog.Proofs.Source.PathText
import ApiCatalog.Proofs.Source.Reading
import ApiCatalog.Proofs.Watch.Debounce
import ApiCatalog.Proofs.Library.Duplicates
import ApiCatalog.Proofs.Code.Hidden
import ApiCatalog.Proofs.Component.Blanking
import ApiCatalog.Proofs.Component.Elements
import ApiCatalog.Proofs.Component.Hidden
import ApiCatalog.Proofs.Component.ScriptBody
import ApiCatalog.Proofs.Link.StarOrigins
import ApiCatalog.Proofs.Watch.Notifications
import ApiCatalog.Proofs.Source.Writing
import ApiCatalog.Proofs.Command.Arguments
import ApiCatalog.Proofs.Command.UpToDate
import ApiCatalog.Proofs.Code.Bindings
import ApiCatalog.Proofs.Code.Moved
import ApiCatalog.Proofs.Code.ExportForms
import ApiCatalog.Proofs.Link.ChainSearch
import ApiCatalog.Proofs.Link.StarNames
import ApiCatalog.Proofs.Link.ExportedNames
import ApiCatalog.Proofs.Source.Segments
import ApiCatalog.Proofs.Link.Merge
import ApiCatalog.Proofs.Source.ModuleKeys
import ApiCatalog.Proofs.Program.Specifiers
import ApiCatalog.Proofs.DocComment.Clean
import ApiCatalog.Proofs.DocComment.Fences
import ApiCatalog.Proofs.DocComment.Links
import ApiCatalog.Proofs.DocComment.ReadBack
import ApiCatalog.Proofs.DocComment.References
import ApiCatalog.Proofs.Text.Positions
import ApiCatalog.Proofs.Component.Templates
import ApiCatalog.Proofs.Component.Unions
import ApiCatalog.Proofs.Component.Signatures
import ApiCatalog.Proofs.Component.TakenApart
import ApiCatalog.Proofs.Component.CalledProps
import ApiCatalog.Proofs.Component.Inheritance
import ApiCatalog.Proofs.Code.ArrayTypes
import ApiCatalog.Proofs.Code.Returns
import ApiCatalog.Proofs.Component.ErrorPlaces
import ApiCatalog.Proofs.Code.Clashes
import ApiCatalog.Proofs.Code.Accessors
import ApiCatalog.Proofs.Code.Destructuring

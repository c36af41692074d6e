import DeployManifest.Address.Key
import DeployManifest.Address.Pattern
import DeployManifest.Command.Request
import DeployManifest.Command.Run
import DeployManifest.Command.Summary
import DeployManifest.Compile.Basic
import DeployManifest.Compile.Call
import DeployManifest.Compile.Error
import DeployManifest.Console.Basic
import DeployManifest.Document.Basic
import DeployManifest.Document.Json
import DeployManifest.Document.Yaml.Block
import DeployManifest.Document.Yaml.Scalar
import DeployManifest.Endpoint.Basic
import DeployManifest.Endpoint.Trigger
import DeployManifest.Eval.Literal
import DeployManifest.Eval.Scope
import DeployManifest.Expr.Basic
import DeployManifest.Expr.Constant
import DeployManifest.Expr.Lower
import DeployManifest.Family
import DeployManifest.Files.Disk
import DeployManifest.Files.Path
import DeployManifest.Files.Source
import DeployManifest.Files.Tree
import DeployManifest.IndexMap
import DeployManifest.KeyMap
import DeployManifest.Main
import DeployManifest.Manifest.Basic
import DeployManifest.Manifest.Format
import DeployManifest.Number.Binary64
import DeployManifest.Number.Decimal
import DeployManifest.Number.FloatText
import DeployManifest.Number.Numeral
import DeployManifest.Number.Word
import DeployManifest.Options.Base
import DeployManifest.Options.Basic
import DeployManifest.Options.Field
import DeployManifest.Options.Filling
import DeployManifest.Options.Memory
import DeployManifest.Options.Trigger
import DeployManifest.Param.Basic
import DeployManifest.Param.Declare
import DeployManifest.Param.Table
import DeployManifest.Proofs.Address.Capture
import DeployManifest.Proofs.Address.Gap
import DeployManifest.Proofs.Address.Grammar
import DeployManifest.Proofs.Address.Instance
import DeployManifest.Proofs.Address.Key
import DeployManifest.Proofs.Address.Pattern
import DeployManifest.Proofs.Command.Files
import DeployManifest.Proofs.Command.Perform
import DeployManifest.Proofs.Compile.Binding
import DeployManifest.Proofs.Compile.Error
import DeployManifest.Proofs.Compile.Inert
import DeployManifest.Proofs.Compile.Manifest
import DeployManifest.Proofs.Compile.Reset
import DeployManifest.Proofs.Compile.Respell
import DeployManifest.Proofs.Compile.Site
import DeployManifest.Proofs.Entering
import DeployManifest.Proofs.Eval.Grammar
import DeployManifest.Proofs.Eval.Literal
import DeployManifest.Proofs.Expr.Integer
import DeployManifest.Proofs.Expr.Lower
import DeployManifest.Proofs.Expr.Quoted
import DeployManifest.Proofs.Expr.Text
import DeployManifest.Proofs.Expr.Unplaced
import DeployManifest.Proofs.Files.Discover
import DeployManifest.Proofs.Files.Disk
import DeployManifest.Proofs.Files.Parent
import DeployManifest.Proofs.Files.Place
import DeployManifest.Proofs.Files.Replace
import DeployManifest.Proofs.Files.Source
import DeployManifest.Proofs.Files.Tree
import DeployManifest.Proofs.Json
import DeployManifest.Proofs.KeyMap
import DeployManifest.Proofs.Manifest.Build
import DeployManifest.Proofs.Manifest.Builder
import DeployManifest.Proofs.Null.Endpoint
import DeployManifest.Proofs.Null.Manifest
import DeployManifest.Proofs.Null.Value
import DeployManifest.Proofs.Number.Positional
import DeployManifest.Proofs.Number.Signed
import DeployManifest.Proofs.Options.Base
import DeployManifest.Proofs.Options.Basic
import DeployManifest.Proofs.Options.Choice
import DeployManifest.Proofs.Options.Filling
import DeployManifest.Proofs.Options.Filter
import DeployManifest.Proofs.Options.Given
import DeployManifest.Proofs.Options.Global
import DeployManifest.Proofs.Options.Memory
import DeployManifest.Proofs.Options.Merge
import DeployManifest.Proofs.Options.Order
import DeployManifest.Proofs.Options.Reset
import DeployManifest.Proofs.Options.Trigger
import DeployManifest.Proofs.Options.Used
import DeployManifest.Proofs.Outcome
import DeployManifest.Proofs.Param.Accept
import DeployManifest.Proofs.Param.Declare
import DeployManifest.Proofs.Param.Index
import DeployManifest.Proofs.Param.Run
import DeployManifest.Proofs.Param.Slot
import DeployManifest.Proofs.Route.Capture
import DeployManifest.Proofs.Route.Contents
import DeployManifest.Proofs.Route.Derived
import DeployManifest.Proofs.Route.Document
import DeployManifest.Proofs.Route.Event
import DeployManifest.Proofs.Route.Http
import DeployManifest.Proofs.Route.Key
import DeployManifest.Proofs.Route.Manifest
import DeployManifest.Proofs.Route.Site
import DeployManifest.Proofs.Route.Table
import DeployManifest.Proofs.Run
import DeployManifest.Proofs.Scan
import DeployManifest.Proofs.Scan.Alike
import DeployManifest.Proofs.Scan.Bound
import DeployManifest.Proofs.Scan.Call
import DeployManifest.Proofs.Scan.Order
import DeployManifest.Proofs.Scan.Parentheses
import DeployManifest.Proofs.Scan.Position
import DeployManifest.Proofs.Scan.Recorded
import DeployManifest.Proofs.Scan.Span
import DeployManifest.Proofs.Scan.Unplaced
import DeployManifest.Proofs.Scan.Wrap
import DeployManifest.Proofs.Scope.Import
import DeployManifest.Proofs.Scope.Lookup
import DeployManifest.Proofs.Scope.Shadow
import DeployManifest.Proofs.Scope.Statement
import DeployManifest.Proofs.Source.Lines
import DeployManifest.Proofs.Source.Place
import DeployManifest.Proofs.Span.Expression
import DeployManifest.Proofs.Span.Front
import DeployManifest.Proofs.Span.Parameter
import DeployManifest.Proofs.Span.Reads
import DeployManifest.Proofs.Span.Row
import DeployManifest.Proofs.Span.Statement
import DeployManifest.Proofs.Text
import DeployManifest.Proofs.Text.Utf8
import DeployManifest.Proofs.Tree.Expression
import DeployManifest.Proofs.Tree.Fits
import DeployManifest.Proofs.Tree.Order
import DeployManifest.Proofs.Tree.Statement
import DeployManifest.Proofs.Tree.Token
import DeployManifest.Proofs.Tree.Yields
import DeployManifest.Proofs.Typing.Endpoint
import DeployManifest.Proofs.Typing.Evaluate
import DeployManifest.Proofs.Typing.Field
import DeployManifest.Proofs.Typing.Manifest
import DeployManifest.Proofs.Typing.Trigger
import DeployManifest.Proofs.Typing.Value
import DeployManifest.Proofs.Value.Substitution
import DeployManifest.Proofs.Wire.Endpoint
import DeployManifest.Proofs.Wire.Field
import DeployManifest.Proofs.Wire.Path
import DeployManifest.Proofs.Wire.Reset
import DeployManifest.Proofs.Wire.Trigger
import DeployManifest.Proofs.Wire.Without
import DeployManifest.Route.Basic
import DeployManifest.Scan.Basic
import DeployManifest.Scan.Finder
import DeployManifest.Settings.Basic
import DeployManifest.Settings.Toml
import DeployManifest.Source.Lines
import DeployManifest.Source.Location
import DeployManifest.Source.Module
import DeployManifest.Text.Blank
import DeployManifest.Text.Cut
import DeployManifest.Text.Identifier
import DeployManifest.Text.Utf8
import DeployManifest.Tree.Atom
import DeployManifest.Tree.Bracket
import DeployManifest.Tree.Call
import DeployManifest.Tree.Cursor
import DeployManifest.Tree.Expression
import DeployManifest.Tree.Import
import DeployManifest.Tree.Line
import DeployManifest.Tree.Module
import DeployManifest.Tree.Node
import DeployManifest.Tree.Parameter
import DeployManifest.Tree.Parser
import DeployManifest.Tree.Pattern
import DeployManifest.Tree.Recovery
import DeployManifest.Tree.Rule
import DeployManifest.Tree.Sequence
import DeployManifest.Tree.Statement
import DeployManifest.Tree.Token
import DeployManifest.Value.Literal
import DeployManifest.Value.Setting

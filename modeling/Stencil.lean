import Stencil.Block.AttributeLine
import Stencil.Block.ItemList
import Stencil.Block.Line
import Stencil.Block.Paragraph
import Stencil.Block.Table
import Stencil.Cache.Basic
import Stencil.Cache.Clock
import Stencil.CommandLine.Arguments
import Stencil.CommandLine.Help
import Stencil.CommandLine.Option
import Stencil.CommandLine.Run
import Stencil.Config.Basic
import Stencil.Config.Expansion
import Stencil.Config.File
import Stencil.Config.Lifetime
import Stencil.Config.Load
import Stencil.Context.Nonce
import Stencil.Context.Value
import Stencil.Engine.Basic
import Stencil.Engine.Config
import Stencil.Engine.Render
import Stencil.Files.Basic
import Stencil.Files.Path
import Stencil.Files.Tree
import Stencil.Form.Control
import Stencil.Form.Entry
import Stencil.Form.Expand
import Stencil.Html.Element
import Stencil.Html.EntityCode
import Stencil.Html.Escape
import Stencil.Inline.BareUrl
import Stencil.Inline.BracedSuffix
import Stencil.Inline.Code
import Stencil.Inline.Embed
import Stencil.Inline.Emphasis
import Stencil.Inline.Link
import Stencil.Inline.Markup
import Stencil.Json.Parse
import Stencil.Json.Quoted
import Stencil.Json.Value
import Stencil.Keyed
import Stencil.Main
import Stencil.Number.Binary64
import Stencil.Number.Scaled
import Stencil.Number.Shortest
import Stencil.Proofs.Block.ItemAccount
import Stencil.Proofs.Block.ParagraphLayout
import Stencil.Proofs.Block.Rise
import Stencil.Proofs.Block.TableLayout
import Stencil.Proofs.Block.Tokens
import Stencil.Proofs.Cache.Current
import Stencil.Proofs.Cache.History
import Stencil.Proofs.Config.Lifetime
import Stencil.Proofs.Config.Load
import Stencil.Proofs.Context.Chain
import Stencil.Proofs.Engine.Agreement
import Stencil.Proofs.Engine.Counting
import Stencil.Proofs.Engine.Failure
import Stencil.Proofs.Engine.LastHook
import Stencil.Proofs.Engine.Layout
import Stencil.Proofs.Engine.Nesting
import Stencil.Proofs.Engine.Overtaking
import Stencil.Proofs.Engine.Reading
import Stencil.Proofs.Engine.Transparency
import Stencil.Proofs.Form.Printing
import Stencil.Proofs.Html.Blocks
import Stencil.Proofs.Html.Crossing
import Stencil.Proofs.Html.Element
import Stencil.Proofs.Html.EntityCode
import Stencil.Proofs.Html.Escape
import Stencil.Proofs.Html.Unescape
import Stencil.Proofs.Inline.Anchors
import Stencil.Proofs.Inline.Code
import Stencil.Proofs.Inline.Crossing
import Stencil.Proofs.Inline.EmphasisAccount
import Stencil.Proofs.Inline.Restore
import Stencil.Proofs.Inline.Rise
import Stencil.Proofs.Inline.Tokens
import Stencil.Proofs.Keyed
import Stencil.Proofs.Render.Accounting
import Stencil.Proofs.Render.Confinement
import Stencil.Proofs.Render.Frame
import Stencil.Proofs.Render.Inverse
import Stencil.Proofs.Render.NonceAttribute
import Stencil.Proofs.Render.Noninterference
import Stencil.Proofs.Render.Simulation
import Stencil.Proofs.Render.Substitution
import Stencil.Proofs.Render.Verbatim
import Stencil.Proofs.Storage.Burst
import Stencil.Proofs.Storage.Path
import Stencil.Proofs.Storage.Recreation
import Stencil.Proofs.Storage.Rederivation
import Stencil.Proofs.Storage.Spelling
import Stencil.Proofs.Tag.Printing
import Stencil.Proofs.Template.FallbackScript
import Stencil.Proofs.Template.Intact
import Stencil.Proofs.Template.LoneUrl
import Stencil.Proofs.Template.Opaque
import Stencil.Proofs.Template.Placeholders
import Stencil.Proofs.Template.Sample
import Stencil.Proofs.Template.Settled
import Stencil.Proofs.Template.SingleLine
import Stencil.Proofs.Text.Fill
import Stencil.Proofs.Text.Token
import Stencil.Proofs.Text.Whole
import Stencil.Render.Nonced
import Stencil.Render.Parts
import Stencil.Render.Placeholder
import Stencil.Render.Reinsert
import Stencil.Source.Normal
import Stencil.Storage.Error
import Stencil.Storage.Event
import Stencil.Storage.Files
import Stencil.Storage.Id
import Stencil.Storage.Memory
import Stencil.Tag.Attributes
import Stencil.Tag.Extract
import Stencil.Tag.Kind
import Stencil.Tag.OpenTag
import Stencil.Tag.Table
import Stencil.Template.ClientScript
import Stencil.Template.Compile
import Stencil.Template.Transform
import Stencil.Text.Basic
import Stencil.Text.Quoted
import Stencil.Text.Scan
import Stencil.Text.StandIn
import Stencil.Text.Upper
import Stencil.Text.Word
import Stencil.Toml.Moment
import Stencil.Toml.Number
import Stencil.Toml.Parse
import Stencil.Toml.Quoted
import Stencil.Toml.Table
import Stencil.Toml.Value

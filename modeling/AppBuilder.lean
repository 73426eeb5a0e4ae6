import AppBuilder.Action.Basic
import AppBuilder.Action.Frame
import AppBuilder.Arena
import AppBuilder.Command.Arguments
import AppBuilder.Command.Basic
import AppBuilder.Components
import AppBuilder.Config
import AppBuilder.Dependency.Graph
import AppBuilder.Dependency.Order
import AppBuilder.Dict
import AppBuilder.Entity.Difference
import AppBuilder.Entity.Tree
import AppBuilder.Evaluation.Error
import AppBuilder.Evaluation.Evaluator
import AppBuilder.Evaluation.OnDemand
import AppBuilder.Evaluation.TreeEvaluator
import AppBuilder.Evaluation.Value
import AppBuilder.Geometry
import AppBuilder.History
import AppBuilder.Json.Basic
import AppBuilder.Json.Decode
import AppBuilder.Json.Parser
import AppBuilder.Json.Printer
import AppBuilder.Layout.Canvas
import AppBuilder.Layout.Drag
import AppBuilder.Layout.Drop
import AppBuilder.Layout.Grid
import AppBuilder.Layout.Highlight
import AppBuilder.Layout.Layer
import AppBuilder.Layout.Move
import AppBuilder.Layout.Reflow
import AppBuilder.Layout.Runner
import AppBuilder.Main
import AppBuilder.Message.Hub
import AppBuilder.Message.Subscription
import AppBuilder.Number.Binary
import AppBuilder.Number.Decimal
import AppBuilder.Proofs.Arena
import AppBuilder.Proofs.Dependency.Components
import AppBuilder.Proofs.Dependency.Order
import AppBuilder.Proofs.Dependency.Refinement
import AppBuilder.Proofs.Dependency.Sound
import AppBuilder.Proofs.Entity.Difference
import AppBuilder.Proofs.Entity.Path
import AppBuilder.Proofs.Evaluation.Cycles
import AppBuilder.Proofs.Evaluation.Dirty
import AppBuilder.Proofs.Evaluation.Graph
import AppBuilder.Proofs.Evaluation.History
import AppBuilder.Proofs.Evaluation.Locality
import AppBuilder.Proofs.Evaluation.References
import AppBuilder.Proofs.Evaluation.Settled
import AppBuilder.Proofs.Evaluation.Stale
import AppBuilder.Proofs.Evaluation.Sync
import AppBuilder.Proofs.Evaluation.Update
import AppBuilder.Proofs.Evaluation.Values
import AppBuilder.Proofs.History.Timeline
import AppBuilder.Proofs.Json.Fields
import AppBuilder.Proofs.Json.Same
import AppBuilder.Proofs.Layout.Balance
import AppBuilder.Proofs.Layout.Bars
import AppBuilder.Proofs.Layout.Columns
import AppBuilder.Proofs.Layout.Drop
import AppBuilder.Proofs.Layout.DropPaths
import AppBuilder.Proofs.Layout.Extent
import AppBuilder.Proofs.Layout.Landing
import AppBuilder.Proofs.Layout.LatestWins
import AppBuilder.Proofs.Layout.Layer
import AppBuilder.Proofs.Layout.Move
import AppBuilder.Proofs.Layout.Offered
import AppBuilder.Proofs.Layout.Place
import AppBuilder.Proofs.Layout.Rearrange
import AppBuilder.Proofs.Layout.Remove
import AppBuilder.Proofs.Layout.Run
import AppBuilder.Proofs.Layout.Sizing
import AppBuilder.Proofs.Layout.Stacking
import AppBuilder.Proofs.Message.ExactlyOnce
import AppBuilder.Proofs.Message.Hub
import AppBuilder.Proofs.Message.Subscription
import AppBuilder.Proofs.Search.Components
import AppBuilder.Proofs.Search.Invariant
import AppBuilder.Proofs.Search.Leave
import AppBuilder.Proofs.Search.Mutual
import AppBuilder.Proofs.Search.Preorder
import AppBuilder.Proofs.Session.CanvasHistory
import AppBuilder.Proofs.Session.Delivery
import AppBuilder.Proofs.Session.Histories
import AppBuilder.Proofs.Session.Separation
import AppBuilder.Proofs.Template.Code
import AppBuilder.Proofs.Widget.Alike
import AppBuilder.Proofs.Widget.LayerRule
import AppBuilder.Proofs.Widget.WellFormed
import AppBuilder.Report
import AppBuilder.Script.Program
import AppBuilder.Script.Run
import AppBuilder.Script.Token
import AppBuilder.Script.Value
import AppBuilder.Search
import AppBuilder.Session.Basic
import AppBuilder.Session.Request
import AppBuilder.Session.Response
import AppBuilder.Session.Worker
import AppBuilder.Table
import AppBuilder.Template.Reference
import AppBuilder.Template.Segment
import AppBuilder.Text.Blank
import AppBuilder.Text.Case
import AppBuilder.Text.Split
import AppBuilder.Text.Width
import AppBuilder.Text.Word
import AppBuilder.Toml
import AppBuilder.Trace
import AppBuilder.Widget.Basic
import AppBuilder.Widget.Tree
import AppBuilder.Widget.Violation
import AppBuilder.Proofs.Evaluation.Failures
import AppBuilder.Proofs.Session.Replaying
import AppBuilder.Proofs.Evaluation.Mirror
import AppBuilder.Proofs.Json.Canonical
import AppBuilder.Proofs.Json.Reading
import AppBuilder.Proofs.Entity.Codec
import AppBuilder.Proofs.Session.Codec
import AppBuilder.Proofs.Layout.Screens
import AppBuilder.Proofs.Layout.Unseen
import AppBuilder.Proofs.Layout.Moved
import AppBuilder.Proofs.Layout.Agreement
import AppBuilder.Proofs.Layout.Removal
import AppBuilder.Proofs.Template.Grammar
import AppBuilder.Proofs.Template.Unclosed
import AppBuilder.Proofs.Layout.Packing
import AppBuilder.Proofs.Template.Literals
import AppBuilder.Proofs.Layout.Reflow
import AppBuilder.Proofs.Entity.Patch
import AppBuilder.Proofs.Layout.GridWalk
import AppBuilder.Proofs.Action.Frames
import AppBuilder.Proofs.Layout.Dragging
import AppBuilder.Proofs.Dependency.Closure
import AppBuilder.Proofs.Evaluation.CodeRun
import AppBuilder.Proofs.Evaluation.Triggers
import AppBuilder.Proofs.Layout.Edits
import AppBuilder.Proofs.Layout.Snapshots
import AppBuilder.Proofs.Search.DepthFirst
import AppBuilder.Proofs.Widget.Walks

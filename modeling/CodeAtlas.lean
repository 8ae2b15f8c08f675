import CodeAtlas.CallTable
import CodeAtlas.Codebase.Basic
import CodeAtlas.Codebase.Document
import CodeAtlas.Codebase.Path
import CodeAtlas.Codebase.Sample
import CodeAtlas.CommandLine.Arguments
import CodeAtlas.CommandLine.Report
import CodeAtlas.Documentation
import CodeAtlas.Event
import CodeAtlas.Explorer
import CodeAtlas.Graph.Basic
import CodeAtlas.Graph.Structure
import CodeAtlas.Graph.Style
import CodeAtlas.Json.Numeral
import CodeAtlas.Json.Reader
import CodeAtlas.Json.Record
import CodeAtlas.Json.Value
import CodeAtlas.Layout.Arena
import CodeAtlas.Layout.Checked
import CodeAtlas.Layout.Forces
import CodeAtlas.Layout.Nudge
import CodeAtlas.Layout.Point
import CodeAtlas.Layout.Quadtree
import CodeAtlas.Layout.Run
import CodeAtlas.Layout.Simulation
import CodeAtlas.Main
import CodeAtlas.Menu
import CodeAtlas.Number.Shortest
import CodeAtlas.Number.Single
import CodeAtlas.OrderedMap
import CodeAtlas.Panel.Detail
import CodeAtlas.Panel.Icon
import CodeAtlas.Panel.Preferences
import CodeAtlas.Panel.Sidebar
import CodeAtlas.Panel.Status
import CodeAtlas.Proofs.CallTable.Merging
import CodeAtlas.Proofs.CallTable.Reachable
import CodeAtlas.Proofs.Codebase.Document
import CodeAtlas.Proofs.Codebase.Insertions
import CodeAtlas.Proofs.Codebase.Presentation
import CodeAtlas.Proofs.Codebase.Sample
import CodeAtlas.Proofs.Documentation.Bodies
import CodeAtlas.Proofs.Documentation.Fields
import CodeAtlas.Proofs.Documentation.Patterns
import CodeAtlas.Proofs.Documentation.Writing
import CodeAtlas.Proofs.Explorer.Actions
import CodeAtlas.Proofs.Explorer.History
import CodeAtlas.Proofs.Explorer.Hover
import CodeAtlas.Proofs.Explorer.MenuClick
import CodeAtlas.Proofs.Explorer.NodeClick
import CodeAtlas.Proofs.Explorer.Noninterference
import CodeAtlas.Proofs.Explorer.Stopping
import CodeAtlas.Proofs.Graph.Forest
import CodeAtlas.Proofs.Graph.Growth
import CodeAtlas.Proofs.Graph.Palette
import CodeAtlas.Proofs.Graph.Structure
import CodeAtlas.Proofs.Json.Acceptance
import CodeAtlas.Proofs.Json.Decimal
import CodeAtlas.Proofs.Json.Layout
import CodeAtlas.Proofs.Json.Number
import CodeAtlas.Proofs.Json.Quantity
import CodeAtlas.Proofs.Json.Reading
import CodeAtlas.Proofs.Json.Truncation
import CodeAtlas.Proofs.Layout.Arena
import CodeAtlas.Proofs.Layout.Bounds
import CodeAtlas.Proofs.Layout.Cells
import CodeAtlas.Proofs.Layout.Contacts
import CodeAtlas.Proofs.Layout.Nesting
import CodeAtlas.Proofs.Layout.Particles
import CodeAtlas.Proofs.Layout.Schedule
import CodeAtlas.Proofs.Layout.Separation
import CodeAtlas.Proofs.Layout.Walk
import CodeAtlas.Proofs.Menu.Forest
import CodeAtlas.Proofs.Menu.Roots
import CodeAtlas.Proofs.Menu.Rows
import CodeAtlas.Proofs.Menu.Search
import CodeAtlas.Proofs.Menu.Targets
import CodeAtlas.Proofs.Number.Magnitude
import CodeAtlas.Proofs.Number.Normal
import CodeAtlas.Proofs.Number.Packing
import CodeAtlas.Proofs.Number.Positive
import CodeAtlas.Proofs.Number.Shortest
import CodeAtlas.Proofs.Number.Zero
import CodeAtlas.Proofs.Path
import CodeAtlas.Proofs.RoundTrip
import CodeAtlas.Proofs.Settings.Saving
import CodeAtlas.Proofs.Settings.StoppingTime
import CodeAtlas.Proofs.Text.Line
import CodeAtlas.Proofs.Text.LowerCase
import CodeAtlas.Proofs.Text.Pattern
import CodeAtlas.Proofs.View.Emphasis
import CodeAtlas.Proofs.View.Motion
import CodeAtlas.Proofs.View.PaintOrder
import CodeAtlas.Proofs.View.Pointing
import CodeAtlas.Settings
import CodeAtlas.Text.CaseTable
import CodeAtlas.Text.Line
import CodeAtlas.Text.LowerCase
import CodeAtlas.Time
import CodeAtlas.View.Area
import CodeAtlas.View.Basic
import CodeAtlas.View.Camera
import CodeAtlas.View.Canvas
import CodeAtlas.View.Pointer
import CodeAtlas.View.Screen
import CodeAtlas.View.Tooltip
import CodeAtlas.View.Wheel
import CodeAtlas.Window

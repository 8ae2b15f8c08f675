import CodeAtlas.Event
import CodeAtlas.Graph.Structure
import CodeAtlas.Graph.Style
import CodeAtlas.Layout.Run
import CodeAtlas.Menu
import CodeAtlas.Panel.Detail
import CodeAtlas.Panel.Status
import CodeAtlas.Settings
import CodeAtlas.View.Basic

namespace CodeAtlas

structure Explorer where
  codebase : Codebase
  graph : Graph
  palette : Palette
  menu : Menu
  run : LayoutRun
  view : View
  detail : Option DetailPanel

namespace Explorer

def start (c : Codebase) (layout : LayoutSettings) (viewport : Point) (now : Instant) :
    Except LayoutSettings.TimeError Explorer := do
  let graph := Graph.ofCodebase c
  let autoStop ← layout.autoStop
  let simulation :=
    Simulation.start graph.nodeCount graph.endpoints.toList layout.forces viewport.half
  return {
    codebase := c
    graph := graph
    palette := Palette.ofNodes graph.nodes.toList
    menu := Menu.ofCodebase c
    run := LayoutRun.start simulation autoStop now
    view := View.ofGraph graph viewport
    detail := none }

def needsFrame (e : Explorer) : Bool :=
  !e.run.stopped || e.view.isAnimating

/-- The frame at `now`, with the events that it publishes: one when the layout stops. -/
def advance (e : Explorer) (now : Instant) : Explorer × List Event :=
  let run := (e.run.step now).1
  let events := if !e.run.stopped && run.stopped then [.layoutStopped run.simulation.ticks] else []
  ({ e with run := run, view := e.view.advance now }, events)

def openDetail (e : Explorer) (folder name : String) : Explorer :=
  match e.codebase.function? folder name with
  | none => e
  | some info =>
    { e with detail := some ((e.detail.getD .empty).present (Detail.ofFunction name info)) }

def recenter (e : Explorer) (id : NodeId) (origin : Origin) (now : Instant) : Explorer :=
  let (view, result) := e.view.recenter e.graph e.run.positions id now
  let centered := { e with view := view }
  match origin, result.bind View.Centered.detail with
  | .graph, some (folder, name) => centered.openDetail folder name
  | _, _ => centered

def handle (now : Instant) (e : Explorer) : Event → Explorer
  | .highlightNode id => { e with view := (e.view.highlight e.graph id).1 }
  | .resetHighlight => { e with view := e.view.resetHighlight }
  | .recenterNode id origin => e.recenter id origin now
  | .showFunctionDetail folder name => e.openDetail folder name
  | .closeDetail => { e with detail := e.detail.map DetailPanel.close }
  | .searchChanged query => { e with menu := e.menu.filter query }
  | .viewportResized width height =>
    { e with run := e.run.resize ⟨width, height⟩, view := e.view.setViewport ⟨width, height⟩ }
  | .layoutStopped _ => e
  | .mappingLoaded _ _ => e
  | .mappingFailed _ => e

def activate (e : Explorer) (id : Nat) : Explorer :=
  { e with menu := (e.menu.activate id).1 }

def status (e : Explorer) (source : String) (now : Instant) : Status where
  source := source
  folders := e.graph.folderCount
  functions := e.graph.functionCount
  edges := e.graph.edgeCount
  ticks := e.run.simulation.ticks
  remaining := if e.run.stopped then none else some (e.run.remaining now)

end Explorer

end CodeAtlas

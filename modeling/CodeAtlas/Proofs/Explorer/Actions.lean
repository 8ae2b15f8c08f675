import CodeAtlas.Explorer
import CodeAtlas.Proofs.Layout.Particles
import CodeAtlas.Proofs.Menu.Targets
import CodeAtlas.Proofs.View.Emphasis

namespace CodeAtlas

namespace View

theorem map_fst_target? (g : Graph) (hg : g.Indexed) (positions : List Point)
    (hp : positions.length = g.nodeCount) (id : NodeId) :
    (target? g positions id).map Prod.fst = g.indexOf? id := by
  rw [target?]
  cases hi : g.indexOf? id with
  | none => rfl
  | some i =>
    have hlt : i < positions.length := hp ▸ hg.indexOf?_lt g id i hi
    simp [List.getElem?_eq_getElem hlt]

theorem centered_recenter (v : View) (g : Graph) (hg : g.Indexed) (positions : List Point)
    (hp : positions.length = g.nodeCount) (id : NodeId) (now : Instant) :
    (v.recenter g positions id now).2 = (g.node? id).map .ofNode := by
  rw [Graph.node?, ← map_fst_target? g hg positions hp id]
  rcases recenter_cases v g positions id now with ⟨ht, h⟩ | ⟨_, _, _, _, ht, h⟩
  · rw [ht, h]
    rfl
  · rw [ht, h]
    rfl

theorem detail_ofNode_of_function (n : Node) (folder : String) (hk : n.kind = .function)
    (hg : n.group = some folder) : (Centered.ofNode n).detail = some (folder, n.name) := by
  rw [Centered.ofNode, hk, hg]

theorem selected_recenter (v : View) (g : Graph) (hg : g.Indexed) (positions : List Point)
    (hp : positions.length = g.nodeCount) (id : NodeId) (now : Instant) :
    (v.recenter g positions id now).1.selected = (g.indexOf? id).or v.selected := by
  rw [← map_fst_target? g hg positions hp id]
  rcases recenter_cases v g positions id now with ⟨ht, h⟩ | ⟨_, _, _, _, ht, h⟩
  · rw [ht, h]
    rfl
  · rw [ht, h]
    rfl

@[simp] theorem viewport_recenter (v : View) (g : Graph) (positions : List Point) (id : NodeId)
    (now : Instant) : (v.recenter g positions id now).1.viewport = v.viewport := by
  rcases recenter_cases v g positions id now with ⟨_, h⟩ | ⟨_, _, _, _, _, h⟩
  · rw [h]
  · rw [h]

theorem recenter_of_notMem (v : View) (g : Graph) (hg : g.Indexed) (positions : List Point)
    (id : NodeId) (now : Instant) (hid : id ∉ g.ids) :
    v.recenter g positions id now = (v, none) := by
  rw [recenter, target?, (hg.indexOf?_eq_none_iff id).mpr hid]
  rfl

theorem highlight_of_notMem (v : View) (g : Graph) (hg : g.Indexed) (id : NodeId)
    (hid : id ∉ g.ids) : v.highlight g id = (v, false) := by
  rw [highlight, (hg.indexOf?_eq_none_iff id).mpr hid]

@[simp] theorem selected_advance (v : View) (now : Instant) :
    (v.advance now).selected = v.selected := by
  obtain ⟨camera, transition, h⟩ := advance_cases v now
  rw [h]

@[simp] theorem viewport_advance (v : View) (now : Instant) :
    (v.advance now).viewport = v.viewport := by
  obtain ⟨camera, transition, h⟩ := advance_cases v now
  rw [h]

@[simp] theorem selected_highlight (v : View) (g : Graph) (id : NodeId) :
    (v.highlight g id).1.selected = v.selected := by
  rw [highlight]
  split <;> rfl

@[simp] theorem viewport_highlight (v : View) (g : Graph) (id : NodeId) :
    (v.highlight g id).1.viewport = v.viewport := by
  rw [highlight]
  split <;> rfl

end View

namespace Explorer

inductive Action where
  | handle (event : Event) (now : Instant)
  | advance (now : Instant)
  | activate (id : Nat)

def act (e : Explorer) : Action → Explorer
  | .handle event now => e.handle now event
  | .advance now => (e.advance now).1
  | .activate id => e.activate id

def after (e : Explorer) (actions : List Action) : Explorer :=
  actions.foldl act e

theorem after_append (e : Explorer) (a b : List Action) : (e.after a).after b = e.after (a ++ b) :=
  (List.foldl_append ..).symm

theorem after_concat (e : Explorer) (actions : List Action) (a : Action) :
    e.after (actions ++ [a]) = (e.after actions).act a := by
  rw [after, List.foldl_append]
  rfl

/-- The details that an event asks for, if there are any: those of a function by name, or those of
a function node that is clicked in the graph. -/
def shows? (c : Codebase) : Event → Option Detail
  | .showFunctionDetail folder name => (c.function? folder name).map (Detail.ofFunction name)
  | .recenterNode id .graph =>
    ((((Graph.ofCodebase c).node? id).map .ofNode).bind View.Centered.detail).bind
      fun (folder, name) => (c.function? folder name).map (Detail.ofFunction name)
  | _ => none

def resizes? : Event → Option Point
  | .viewportResized width height => some ⟨width, height⟩
  | _ => none

def closes : Event → Bool
  | .closeDetail => true
  | _ => false

def opened (d : Detail) : DetailPanel := ⟨some d, true⟩

namespace Action

def event? : Action → Option Event
  | .handle event _ => some event
  | _ => none

def onMenu (m : Menu) : Action → Menu
  | .handle (.searchChanged query) _ => m.filter query
  | .activate id => (m.activate id).1
  | _ => m

def onRun (r : LayoutRun) : Action → LayoutRun
  | .handle (.viewportResized width height) _ => r.resize ⟨width, height⟩
  | .advance now => (r.step now).1
  | _ => r

def onView (positions : List Point) : Action → List View.Operation
  | .handle (.highlightNode id) _ => [.highlight id]
  | .handle .resetHighlight _ => [.resetHighlight]
  | .handle (.recenterNode id _) now => [.recenter positions id now]
  | .handle (.viewportResized width height) _ => [.setViewport ⟨width, height⟩]
  | .advance now => [.advance now]
  | _ => []

def onDetail (c : Codebase) (panel : Option DetailPanel) : Action → Option DetailPanel
  | .handle event _ =>
    if closes event then panel.map DetailPanel.close
    else ((shows? c event).map opened).or panel
  | _ => panel

end Action

/-- What a viewer keeps from its codebase whatever happens to it. -/
structure Serves (e : Explorer) (c : Codebase) : Prop where
  codebase_eq : e.codebase = c
  graph_eq : e.graph = Graph.ofCodebase c
  targets_eq : e.menu.targets = (Menu.ofCodebase c).targets
  length_positions : e.run.positions.length = e.graph.nodeCount
  center_eq : e.run.simulation.center = e.view.viewport.half

theorem Serves.indexed (e : Explorer) (c : Codebase) (h : e.Serves c) : e.graph.Indexed :=
  h.graph_eq ▸ Graph.indexed_ofCodebase c

theorem openDetail_eq (e : Explorer) (folder name : String) :
    e.openDetail folder name = { e with
      detail := (((e.codebase.function? folder name).map (Detail.ofFunction name)).map opened).or
        e.detail } := by
  rw [openDetail]
  cases e.codebase.function? folder name with
  | none => rfl
  | some info => rfl

/-- Apart from the details that it shows, an action does the same to every viewer. -/
theorem act_cases (e : Explorer) (a : Action) :
    ∃ detail, e.act a = { e with
      menu := a.onMenu e.menu
      run := a.onRun e.run
      view := e.view.run e.graph (a.onView e.run.positions)
      detail := detail } := by
  cases a with
  | advance now => exact ⟨e.detail, rfl⟩
  | activate id => exact ⟨e.detail, rfl⟩
  | handle event now =>
    cases event with
    | recenterNode id origin =>
      rw [act, handle]
      unfold recenter
      dsimp only
      split
      · rw [openDetail_eq]
        exact ⟨_, rfl⟩
      · exact ⟨e.detail, rfl⟩
    | showFunctionDetail folder name =>
      rw [act, handle, openDetail_eq]
      exact ⟨_, rfl⟩
    | highlightNode | resetHighlight | closeDetail | searchChanged | viewportResized
    | layoutStopped | mappingLoaded | mappingFailed => exact ⟨_, rfl⟩

theorem recenter_eq (e : Explorer) (c : Codebase) (h : e.Serves c) (id : NodeId) (origin : Origin)
    (now : Instant) :
    e.recenter id origin now = { e with
      view := (e.view.recenter e.graph e.run.positions id now).1
      detail := ((shows? c (.recenterNode id origin)).map opened).or e.detail } := by
  have hn := e.view.centered_recenter e.graph (h.indexed e c) e.run.positions h.length_positions
    id now
  unfold recenter
  dsimp only
  rw [hn, h.graph_eq]
  cases origin with
  | sidebar => rfl
  | graph =>
    rw [shows?]
    cases (((Graph.ofCodebase c).node? id).map .ofNode).bind View.Centered.detail with
    | none => rfl
    | some place =>
      dsimp only
      rw [openDetail_eq, h.codebase_eq]
      rfl

/-- Each part of a viewer changes on its own, except that centering needs the positions. -/
theorem act_eq (e : Explorer) (c : Codebase) (h : e.Serves c) (a : Action) :
    e.act a = { e with
      menu := a.onMenu e.menu
      run := a.onRun e.run
      view := e.view.run e.graph (a.onView e.run.positions)
      detail := a.onDetail c e.detail } := by
  cases a with
  | advance now => rfl
  | activate id => rfl
  | handle event now =>
    cases event with
    | recenterNode id origin => exact recenter_eq e c h id origin now
    | showFunctionDetail folder name =>
      rw [act, handle, openDetail_eq]
      obtain ⟨rfl, _, _, _, _⟩ := h
      rfl
    | highlightNode | resetHighlight | closeDetail | searchChanged | viewportResized
    | layoutStopped | mappingLoaded | mappingFailed => rfl

@[simp] theorem Action.targets_onMenu (m : Menu) (a : Action) :
    (a.onMenu m).targets = m.targets := by
  cases a with
  | advance now => rfl
  | activate id => exact m.targets_activate id
  | handle event now =>
    cases event with
    | searchChanged query => exact m.targets_filter query
    | highlightNode | resetHighlight | recenterNode | showFunctionDetail | closeDetail
    | viewportResized | layoutStopped | mappingLoaded | mappingFailed => rfl

@[simp] theorem Action.length_positions_onRun (r : LayoutRun) (a : Action) :
    (a.onRun r).positions.length = r.positions.length := by
  cases a with
  | advance now => exact r.length_positions_step now
  | activate id => rfl
  | handle event now => cases event <;> rfl

theorem Action.center_onRun (r : LayoutRun) (a : Action) :
    (a.onRun r).simulation.center =
      ((a.event?.bind resizes?).map Point.half).getD r.simulation.center := by
  cases a with
  | advance now => exact r.center_step now
  | activate id => rfl
  | handle event now => cases event <;> rfl

theorem Action.viewport_onView (v : View) (g : Graph) (positions : List Point) (a : Action) :
    (v.run g (a.onView positions)).viewport = (a.event?.bind resizes?).getD v.viewport := by
  cases a with
  | advance now => exact v.viewport_advance now
  | activate id => rfl
  | handle event now =>
    cases event with
    | highlightNode id => exact v.viewport_highlight g id
    | recenterNode id origin => exact v.viewport_recenter g positions id now
    | resetHighlight | showFunctionDetail | closeDetail | searchChanged | viewportResized
    | layoutStopped | mappingLoaded | mappingFailed => rfl

theorem Serves.act (e : Explorer) (c : Codebase) (h : e.Serves c) (a : Action) :
    (e.act a).Serves c := by
  rw [act_eq e c h]
  constructor
  · exact h.codebase_eq
  · exact h.graph_eq
  · exact (a.targets_onMenu e.menu).trans h.targets_eq
  · exact (a.length_positions_onRun e.run).trans h.length_positions
  · dsimp only
    rw [a.center_onRun, a.viewport_onView, h.center_eq]
    cases a.event?.bind resizes? <;> rfl

theorem Serves.after (e : Explorer) (c : Codebase) (h : e.Serves c) (actions : List Action) :
    (e.after actions).Serves c := by
  induction actions using List.reverseRecOn with
  | nil => exact h
  | append_singleton actions a ih =>
    rw [after_concat]
    exact ih.act _ c a

theorem start_eq_ok (c : Codebase) (layout : LayoutSettings) (viewport : Point) (now : Instant)
    (e : Explorer) (h : start c layout viewport now = .ok e) :
    e.Serves c ∧ e.menu = Menu.ofCodebase c ∧ e.view = View.ofGraph e.graph viewport ∧
      e.detail = none := by
  rw [start] at h
  cases ha : layout.autoStop with
  | error err =>
    rw [ha] at h
    cases h
  | ok autoStop =>
    rw [ha] at h
    cases h
    refine ⟨⟨rfl, rfl, rfl, ?_, rfl⟩, rfl, rfl, rfl⟩
    rw [LayoutRun.length_positions]
    exact Simulation.size_start _ _ _ _

theorem exists_start_default (c : Codebase) (viewport : Point) (now : Instant) :
    ∃ e, start c .default viewport now = .ok e := by
  have hok : LayoutSettings.default.autoStop.isOk = true := by decide +kernel
  rw [start]
  cases h : LayoutSettings.default.autoStop with
  | error err =>
    rw [h] at hok
    cases hok
  | ok autoStop => exact ⟨_, rfl⟩

end Explorer

end CodeAtlas

import CodeAtlas.Proofs.Explorer.Actions

namespace CodeAtlas.Explorer

def history (actions : List Action) : List Event :=
  actions.filterMap Action.event?

@[simp] theorem history_concat (actions : List Action) (a : Action) :
    history (actions ++ [a]) = history actions ++ a.event?.toList := by
  rw [history, List.filterMap_append]
  cases a <;> rfl

section Latest

variable {α : Type}

def latest? (writes : Event → Option α) (events : List Event) : Option α :=
  events.reverse.findSome? writes

/-- The events after the last one that wrote anything, backwards. -/
def sinceLatest (writes : Event → Option α) (events : List Event) : List Event :=
  events.reverse.takeWhile fun event => (writes event).isNone

theorem latest?_concat (writes : Event → Option α) (events : List Event) (event : Event) :
    latest? writes (events ++ [event]) = (writes event).or (latest? writes events) := by
  rw [latest?, List.reverse_append, List.reverse_singleton, List.singleton_append,
    List.findSome?_cons]
  cases writes event <;> rfl

theorem sinceLatest_concat (writes : Event → Option α) (events : List Event) (event : Event) :
    sinceLatest writes (events ++ [event]) =
      if (writes event).isNone then event :: sinceLatest writes events else [] := by
  rw [sinceLatest, List.reverse_append, List.reverse_singleton, List.singleton_append,
    List.takeWhile_cons]
  rfl

/-- If every action writes a part of the state or leaves it, the part is what was written last. -/
theorem eq_latest (writes : Event → Option α) (part : Explorer → Option α) (e : Explorer)
    (hact : ∀ actions a, part ((e.after actions).act a) =
      (a.event?.bind writes).or (part (e.after actions))) (actions : List Action) :
    part (e.after actions) = (latest? writes (history actions)).or (part e) := by
  -- from the end, where the last writer is found
  induction actions using List.reverseRecOn with
  | nil => rfl
  | append_singleton actions a ih =>
    rw [after_concat, hact, history_concat, ih]
    cases a.event? with
    | none => rw [Option.toList_none, List.append_nil, Option.bind_none, Option.none_or]
    | some event => rw [Option.toList_some, latest?_concat, Option.bind_some, Option.or_assoc]

theorem eq_latest_getD (writes : Event → Option α) (part : Explorer → α) (e : Explorer)
    (hact : ∀ actions a, part ((e.after actions).act a) =
      (a.event?.bind writes).getD (part (e.after actions))) (actions : List Action) :
    part (e.after actions) = (latest? writes (history actions)).getD (part e) := by
  have hsome : ∀ actions a, some (part ((e.after actions).act a)) =
      (a.event?.bind writes).or (some (part (e.after actions))) := by
    intro actions a
    rw [hact, Option.or_some]
  have h := eq_latest writes (fun s => some (part s)) e hsome actions
  rw [Option.or_some] at h
  exact Option.some.inj h

end Latest

def selects? (c : Codebase) : Event → Option Nat
  | .recenterNode id _ => (Graph.ofCodebase c).indexOf? id
  | _ => none

def searches? : Event → Option String
  | .searchChanged query => some query
  | _ => none

/-- The overlay that a history leaves: the details that were last shown, closed if anything has
closed them since. -/
def panel? (c : Codebase) (events : List Event) : Option DetailPanel :=
  (latest? (shows? c) events).map fun d => ⟨some d, !(sinceLatest (shows? c) events).any closes⟩

theorem panel?_concat (c : Codebase) (events : List Event) (event : Event) :
    panel? c (events ++ [event]) =
      if closes event then (panel? c events).map DetailPanel.close
      else ((shows? c event).map opened).or (panel? c events) := by
  rw [panel?, latest?_concat, sinceLatest_concat]
  cases hs : shows? c event with
  | some d =>
    have hc : closes event = false := by
      cases event with
      | closeDetail => cases hs
      | highlightNode | resetHighlight | recenterNode | showFunctionDetail | searchChanged
      | viewportResized | layoutStopped | mappingLoaded | mappingFailed => rfl
    rw [hc]
    rfl
  | none =>
    rw [panel?]
    cases hc : closes event <;> cases latest? (shows? c) events <;>
      simp [hc, DetailPanel.close]

theorem Action.selected_onView (v : View) (c : Codebase) (positions : List Point)
    (hp : positions.length = (Graph.ofCodebase c).nodeCount) (a : Action) :
    (v.run (Graph.ofCodebase c) (a.onView positions)).selected =
      (a.event?.bind (selects? c)).or v.selected := by
  cases a with
  | advance now => exact v.selected_advance now
  | activate id => rfl
  | handle event now =>
    cases event with
    | highlightNode id => exact v.selected_highlight _ id
    | recenterNode id origin =>
      exact v.selected_recenter _ (Graph.indexed_ofCodebase c) positions hp id now
    | resetHighlight | showFunctionDetail | closeDetail | searchChanged | viewportResized
    | layoutStopped | mappingLoaded | mappingFailed => rfl

theorem Action.query_onMenu (m : Menu) (a : Action) :
    (a.onMenu m).query = (a.event?.bind searches?).getD m.query := by
  cases a with
  | advance now => rfl
  | activate id => exact m.query_activate id
  | handle event now => cases event <;> rfl

/-- An event that names what is not there changes nothing at all. -/
theorem handle_of_missing (e : Explorer) (c : Codebase) (h : e.Serves c) (now : Instant) :
    (∀ id, id ∉ (Graph.ofCodebase c).ids → e.handle now (.highlightNode id) = e ∧
      ∀ origin, e.handle now (.recenterNode id origin) = e) ∧
    ∀ folder name, c.function? folder name = none →
      e.handle now (.showFunctionDetail folder name) = e := by
  refine ⟨fun id hid => ⟨?_, fun origin => ?_⟩, fun folder name hf => ?_⟩
  · rw [← h.graph_eq] at hid
    rw [handle, View.highlight_of_notMem _ _ (h.indexed e c) _ hid]
  · have hnone : shows? c (.recenterNode id origin) = none := by
      cases origin with
      | sidebar => rfl
      | graph =>
        rw [shows?, Graph.node?, ((Graph.indexed_ofCodebase c).indexOf?_eq_none_iff id).mpr hid]
        rfl
    rw [← h.graph_eq] at hid
    rw [handle, recenter_eq e c h, View.recenter_of_notMem _ _ (h.indexed e c) _ _ _ hid, hnone]
    rfl
  · rw [← h.codebase_eq] at hf
    rw [handle, openDetail_eq, hf]
    rfl

theorem detail_after (e : Explorer) (c : Codebase) (h : e.Serves c) (hd : e.detail = none)
    (actions : List Action) : (e.after actions).detail = panel? c (history actions) := by
  induction actions using List.reverseRecOn with
  | nil => exact hd
  | append_singleton actions a ih =>
    rw [after_concat, act_eq _ c (h.after e c actions), history_concat, ih]
    cases a with
    | handle event now => exact (panel?_concat c _ event).symm
    | advance now | activate id => exact congrArg (panel? c) (List.append_nil _).symm

theorem selected_after (e : Explorer) (c : Codebase) (h : e.Serves c) (actions : List Action) :
    (e.after actions).view.selected =
      (latest? (selects? c) (history actions)).or e.view.selected := by
  apply eq_latest (selects? c) (·.view.selected)
  intro actions a
  have hs := h.after e c actions
  have hp := hs.length_positions
  rw [act_eq _ c hs]
  rw [hs.graph_eq] at hp ⊢
  exact a.selected_onView _ c _ hp

theorem query_after (e : Explorer) (c : Codebase) (h : e.Serves c) (actions : List Action) :
    (e.after actions).menu.query =
      (latest? searches? (history actions)).getD e.menu.query := by
  apply eq_latest_getD searches? (·.menu.query)
  intro actions a
  rw [act_eq _ c (h.after e c actions)]
  exact a.query_onMenu _

theorem viewport_after (e : Explorer) (c : Codebase) (h : e.Serves c) (actions : List Action) :
    (e.after actions).view.viewport =
      (latest? resizes? (history actions)).getD e.view.viewport := by
  apply eq_latest_getD resizes? (·.view.viewport)
  intro actions a
  rw [act_eq _ c (h.after e c actions)]
  exact a.viewport_onView _ _ _

theorem shows?_of_detail (c : Codebase) (id : NodeId) (n : Node) (folder name : String)
    (info : FunctionInfo) (hn : (Graph.ofCodebase c).node? id = some n)
    (hf : (View.Centered.ofNode n).detail = some (folder, name))
    (hi : c.function? folder name = some info) :
    shows? c (.recenterNode id .graph) = some (.ofFunction name info) := by
  rw [shows?, hn, Option.map_some, Option.bind_some, hf, Option.bind_some]
  exact congrArg (Option.map (Detail.ofFunction name)) hi

/-- A function node that is clicked always has details to show. -/
theorem shows?_function (c : Codebase) (id : NodeId) (n : Node)
    (hn : (Graph.ofCodebase c).node? id = some n) (hk : n.kind = .function) :
    ∃ folder info, n.group = some folder ∧ c.function? folder n.name = some info ∧
      shows? c (.recenterNode id .graph) = some (.ofFunction n.name info) := by
  have hmem : n ∈ (Graph.ofCodebase c).nodes := by
    rw [(Graph.indexed_ofCodebase c).node?_eq_find?] at hn
    exact Array.mem_toList_iff.mp (List.mem_of_find?_eq_some hn)
  obtain ⟨folder, info, hg, _, hi⟩ := Graph.function?_of_mem_nodes c n hmem hk
  exact ⟨folder, info, hg, hi,
    shows?_of_detail c id n folder _ info hn (View.detail_ofNode_of_function n folder hk hg) hi⟩

/-- Whatever happens to a viewer, its state tells what came last: the last node that was centered
is selected, the last query and the last size of the viewport are in force, and the overlay has the
details that were shown last, closed if it was closed since. What names an unknown node or function
does not count, and changes nothing. -/
theorem after_eq_latest (c : Codebase) (layout : LayoutSettings) (viewport : Point)
    (now : Instant) (e : Explorer) (h : start c layout viewport now = .ok e)
    (actions : List Action) :
    (e.after actions).view.selected = latest? (selects? c) (history actions) ∧
      (e.after actions).menu.query = (latest? searches? (history actions)).getD "" ∧
      (e.after actions).view.viewport = (latest? resizes? (history actions)).getD viewport ∧
      (e.after actions).run.simulation.center = (e.after actions).view.viewport.half ∧
      (e.after actions).detail = panel? c (history actions) ∧
      (∀ id n, (Graph.ofCodebase c).node? id = some n → n.kind = .function →
        ∃ folder info, n.group = some folder ∧ c.function? folder n.name = some info ∧
          shows? c (.recenterNode id .graph) = some (.ofFunction n.name info)) ∧
      ∀ now,
        (∀ id, id ∉ (Graph.ofCodebase c).ids →
          (e.after actions).handle now (.highlightNode id) = e.after actions ∧
          ∀ origin, (e.after actions).handle now (.recenterNode id origin) = e.after actions) ∧
        ∀ folder name, c.function? folder name = none →
          (e.after actions).handle now (.showFunctionDetail folder name) = e.after actions := by
  obtain ⟨hs, hm, hv, hd⟩ := start_eq_ok c layout viewport now e h
  have hafter := hs.after e c actions
  refine ⟨?_, ?_, ?_, hafter.center_eq, detail_after e c hs hd actions, shows?_function c,
    fun now => handle_of_missing _ c hafter now⟩
  · rw [selected_after e c hs, hv]
    exact Option.or_none
  · rw [query_after e c hs, hm, Menu.query_ofCodebase]
  · rw [viewport_after e c hs, hv]
    rfl

/-- A click on the function `a/g`, whose id a folder has too, and then events that miss. -/
def misses : List Action :=
  [.handle (.recenterNode "a/g" .graph) 5, .advance 16, .handle (.recenterNode "a/h" .graph) 20,
    .activate 1, .handle .closeDetail 30, .handle (.showFunctionDetail "a" "h") 40]

theorem after_eq_latest_misses :
    ∃ e, start Graph.shared .default ⟨800, 600⟩ 0 = .ok e ∧
      (e.after misses).view.selected = some 2 ∧ (e.after misses).menu.query = "" ∧
      (e.after misses).view.viewport = ⟨800, 600⟩ ∧
      (e.after misses).detail.map (fun p => (p.content.map Detail.functionName, p.isOpen)) =
        some (some "g", false) ∧
      (shows? Graph.shared (.recenterNode "a/g" .graph)).isSome = true ∧
      (e.after misses).handle 50 (.highlightNode "a/h") = e.after misses ∧
      (e.after misses).handle 60 (.showFunctionDetail "b" "g") = e.after misses := by
  obtain ⟨e, he⟩ := exists_start_default Graph.shared ⟨800, 600⟩ 0
  obtain ⟨hs, hq, hv, _, hd, hshow, hmiss⟩ := after_eq_latest _ _ _ _ e he misses
  have hkind : ((Graph.ofCodebase Graph.shared).node? "a/g").map Node.kind = some .function := by
    decide +kernel
  obtain ⟨n, hn, hk⟩ := Option.map_eq_some_iff.mp hkind
  obtain ⟨_, _, _, _, hg⟩ := hshow "a/g" n hn hk
  refine ⟨e, he, hs.trans (by decide +kernel), hq, hv, ?_, Option.isSome_of_eq_some hg,
    ((hmiss 50).1 "a/h" (by decide +kernel)).1, (hmiss 60).2 "b" "g" (by decide +kernel)⟩
  rw [hd]
  decide +kernel

end CodeAtlas.Explorer

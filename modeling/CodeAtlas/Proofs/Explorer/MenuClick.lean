import CodeAtlas.Proofs.Explorer.History
import CodeAtlas.Window

namespace CodeAtlas.Explorer

@[simp] theorem pending_foldl_publish (events : List Event) (queue : EventQueue) :
    (events.foldl EventQueue.publish queue).pending = queue.pending ++ events := by
  induction events generalizing queue with
  | nil => exact (List.append_nil _).symm
  | cons event events ih =>
    rw [List.foldl_cons, ih, EventQueue.publish, List.append_assoc]
    rfl

theorem sidebar_activate (m : Menu) (id : Nat) (item : Menu.Item) (h : m.item? id = some item) :
    Sidebar.activate m id = ((m.activate id).1, Sidebar.eventsOf item.target) := by
  rw [Sidebar.activate, Menu.activate, h, Option.map_some]
  cases item.target <;> rfl

/-- A click is a run of its own: the item is activated and all events are handled in turn. -/
theorem click_eq_after (e : Explorer) (queue : EventQueue) (id : Nat) (now : Instant)
    (item : Menu.Item) (h : e.menu.item? id = some item) :
    e.click queue id now = e.after (.activate id ::
      (queue.pending ++ Sidebar.eventsOf item.target).map (.handle · now)) := by
  rw [click, sidebar_activate e.menu id item h]
  dsimp only
  rw [EventQueue.dispatch, pending_foldl_publish, after, List.foldl_cons, List.foldl_map]
  rfl

theorem history_click (actions : List Action) (id : Nat) (events : List Event) (now : Instant) :
    history (actions ++ .activate id :: events.map (.handle · now)) =
      history actions ++ events := by
  rw [history, List.filterMap_append, List.filterMap_cons_none rfl, List.filterMap_map]
  exact congrArg _ (List.filterMap_some)

theorem latest?_eventsOf (c : Codebase) (events : List Event) (t : Menu.Target) :
    latest? (selects? c) (events ++ Sidebar.eventsOf t) =
      ((Graph.ofCodebase c).indexOf? t.nodeId).or (latest? (selects? c) events) := by
  cases t with
  | folder path => exact latest?_concat (selects? c) events _
  | function path name =>
    rw [Sidebar.eventsOf, List.append_cons, latest?_concat, latest?_concat]
    rfl

theorem panel?_eventsOf (c : Codebase) (events : List Event) (path name : String)
    (info : FunctionInfo) (hi : c.function? path name = some info) :
    panel? c (events ++ Sidebar.eventsOf (.function path name)) =
      some (opened (.ofFunction name info)) := by
  rw [Sidebar.eventsOf, List.append_cons, panel?_concat, shows?, hi]
  rfl

theorem exists_function?_of_mem_targets (c : Codebase) (path name : String)
    (h : .function path name ∈ (Menu.ofCodebase c).targets) :
    ∃ info, c.function? path name = some info := by
  rcases (Menu.mem_targets_ofCodebase c _).mp h with ⟨_, _, p, _, hp⟩ | ⟨entry, he, name, hn, ht⟩
  · cases hp
  · cases ht
    exact Graph.exists_function? c entry he name hn

theorem mem_ids_iff_item (e : Explorer) (c : Codebase) (h : e.Serves c) (id : NodeId) :
    id ∈ e.graph.ids ↔ ∃ item ∈ e.menu.items, item.target.nodeId = id := by
  rw [h.graph_eq, Menu.mem_ids_ofCodebase_iff, ← h.targets_eq, Menu.targets]
  simp only [List.mem_map, Array.mem_toList_iff, exists_exists_and_eq_and]

/-- Whatever has happened to a viewer and whatever else is waiting in the queue, a click on a menu
item selects the item's node, which is there, and a click on a function shows the details of that
very function, though its id may be another function's or a folder's as well. The menu and the graph
have the same ids. -/
theorem click_selects_and_shows (c : Codebase) (layout : LayoutSettings) (viewport : Point)
    (start₀ : Instant) (e : Explorer) (h : start c layout viewport start₀ = .ok e)
    (actions : List Action) (queue : EventQueue) (id : Nat) (item : Menu.Item)
    (hi : (e.after actions).menu.item? id = some item) (now : Instant) :
    (∃ i, (Graph.ofCodebase c).indexOf? item.target.nodeId = some i ∧
        ((e.after actions).click queue id now).view.selected = some i) ∧
      (∀ path name, item.target = .function path name →
        ∃ info, c.function? path name = some info ∧
          ((e.after actions).click queue id now).detail =
            some ⟨some (.ofFunction name info), true⟩) ∧
      ∀ nodeId, nodeId ∈ (e.after actions).graph.ids ↔
        ∃ item ∈ (e.after actions).menu.items, item.target.nodeId = nodeId := by
  obtain ⟨hs, _, _, hd⟩ := start_eq_ok c layout viewport start₀ e h
  have hafter := hs.after e c actions
  have hmem : item.target ∈ (Menu.ofCodebase c).targets := by
    rw [← hafter.targets_eq]
    exact Menu.mem_targets_of_item? _ id item hi
  have hclick := click_eq_after (e.after actions) queue id now item hi
  rw [after_append] at hclick
  refine ⟨?_, ?_, mem_ids_iff_item _ c hafter⟩
  · have hid := (Menu.mem_ids_ofCodebase_iff c _).mpr ⟨item.target, hmem, rfl⟩
    obtain ⟨i, hindex⟩ := Graph.exists_indexOf? _ _
      (((Graph.indexed_ofCodebase c).contains_iff _).mpr hid)
    refine ⟨i, hindex, ?_⟩
    rw [hclick, selected_after e c hs, history_click, ← List.append_assoc, latest?_eventsOf, hindex]
    rfl
  · intro path name ht
    rw [ht] at hmem
    obtain ⟨info, hinfo⟩ := exists_function?_of_mem_targets c path name hmem
    refine ⟨info, hinfo, ?_⟩
    rw [hclick, detail_after e c hs hd, history_click, ht, ← List.append_assoc]
    exact panel?_eventsOf c _ path name info hinfo

/-- The function `f` in `a` has the id of a folder, and the node is the folder's. -/
theorem click_selects_and_shows_shared :
    ∃ e item, start Graph.shared .default ⟨800, 600⟩ 0 = .ok e ∧
      (e.after [.activate 0, .advance 16]).menu.item? 3 = some item ∧
      item.target = .function "a" "f" ∧
      ((e.after [.activate 0, .advance 16]).click ⟨[.closeDetail]⟩ 3 20).view.selected = some 1 ∧
      ((e.after [.activate 0, .advance 16]).click ⟨[.closeDetail]⟩ 3 20).detail =
        some ⟨some (.ofFunction "f" ⟨none, []⟩), true⟩ := by
  obtain ⟨e, he⟩ := exists_start_default Graph.shared ⟨800, 600⟩ 0
  obtain ⟨_, hm, _, _⟩ := start_eq_ok _ _ _ _ e he
  have ht : ((e.after [.activate 0, .advance 16]).menu.item? 3).map Menu.Item.target =
      some (.function "a" "f") := by
    change ((e.menu.activate 0).1.item? 3).map Menu.Item.target = _
    rw [hm]
    decide +kernel
  obtain ⟨item, hitem, htarget⟩ := Option.map_eq_some_iff.mp ht
  obtain ⟨⟨i, hi, hs⟩, hd, _⟩ :=
    click_selects_and_shows _ _ _ _ e he _ ⟨[.closeDetail]⟩ 3 item hitem 20
  obtain ⟨info, hinfo, hdetail⟩ := hd "a" "f" htarget
  have hone : (Graph.ofCodebase Graph.shared).indexOf? "a/f" = some 1 := by decide +kernel
  have hnone : Graph.shared.function? "a" "f" = some ⟨none, []⟩ := by decide
  rw [htarget] at hi
  cases hi.symm.trans hone
  cases hinfo.symm.trans hnone
  exact ⟨e, item, he, hitem, htarget, hs, hdetail⟩

end CodeAtlas.Explorer

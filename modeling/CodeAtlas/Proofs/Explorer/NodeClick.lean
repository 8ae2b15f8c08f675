import CodeAtlas.Proofs.Explorer.History
import CodeAtlas.Proofs.View.Pointing

namespace CodeAtlas

theorem Graph.Indexed.node?_of_mem (g : Graph) (hg : g.Indexed) (n : Node) (h : n ∈ g.nodes) :
    ∃ i, g.nodes[i]? = some n ∧ g.indexOf? n.id = some i ∧ g.node? n.id = some n := by
  obtain ⟨i, hi⟩ := Array.getElem?_of_mem h
  have hid := hg.indexOf?_of_getElem? i n hi
  refine ⟨i, hi, hid, ?_⟩
  rw [node?, hid]
  exact hi

namespace View

theorem detail_ofNode_of_folder (n : Node) (hk : n.kind = .folder) :
    (Centered.ofNode n).detail = none := by
  rw [Centered.ofNode, hk]

theorem recenter_of_mem (g : Graph) (hg : g.Indexed) (positions : List Point)
    (hp : positions.length = g.nodeCount) (n : Node) (h : n ∈ g.nodes) :
    ∃ i, g.nodes[i]? = some n ∧ ∀ (v : View) (now : Instant),
      (v.recenter g positions n.id now).2 = some ⟨n.id, (Centered.ofNode n).detail⟩ ∧
        (v.recenter g positions n.id now).1.selected = some i := by
  obtain ⟨i, hi, hid, hn⟩ := hg.node?_of_mem g n h
  refine ⟨i, hi, fun v now => ⟨?_, ?_⟩⟩
  · rw [centered_recenter v g hg positions hp, hn]
    rfl
  · rw [selected_recenter v g hg positions hp, hid]
    rfl

end View

namespace Explorer

/-- Centering a function node, wherever the nodes are, answers with the folder and the name of a
function whose id is the node's, and a click on the node shows the details of that function,
whatever has happened to the viewer before. Centering a folder answers with no function, and
centering what is not in the graph gives no answer and does nothing. -/
theorem node_click_finds_function (c : Codebase) :
    (∀ n ∈ (Graph.ofCodebase c).nodes, n.kind = .function →
      ∃ folder name info, c.function? folder name = some info ∧ Path.join folder name = n.id ∧
        (∀ positions : List Point, positions.length = (Graph.ofCodebase c).nodeCount →
          ∃ i, (Graph.ofCodebase c).nodes[i]? = some n ∧ ∀ (v : View) (now : Instant),
            (v.recenter (Graph.ofCodebase c) positions n.id now).2 =
              some ⟨n.id, some (folder, name)⟩ ∧
            (v.recenter (Graph.ofCodebase c) positions n.id now).1.selected = some i) ∧
        ∀ layout viewport start₀ e, start c layout viewport start₀ = .ok e → ∀ actions now,
          ((e.after actions).handle now (.recenterNode n.id .graph)).detail =
            some ⟨some (.ofFunction name info), true⟩) ∧
    (∀ n ∈ (Graph.ofCodebase c).nodes, n.kind = .folder →
      ∀ positions : List Point, positions.length = (Graph.ofCodebase c).nodeCount →
        ∃ i, (Graph.ofCodebase c).nodes[i]? = some n ∧ ∀ (v : View) (now : Instant),
          (v.recenter (Graph.ofCodebase c) positions n.id now).2 = some ⟨n.id, none⟩ ∧
          (v.recenter (Graph.ofCodebase c) positions n.id now).1.selected = some i) ∧
    ∀ id, id ∉ (Graph.ofCodebase c).ids → ∀ (positions : List Point) (v : View) (now : Instant),
      v.recenter (Graph.ofCodebase c) positions id now = (v, none) := by
  have hg := Graph.indexed_ofCodebase c
  refine ⟨fun n hn hk => ?_, fun n hn hk positions hp => ?_, fun id hid positions v now =>
    v.recenter_of_notMem _ hg positions id now hid⟩
  · obtain ⟨folder, info, hgroup, hj, hi⟩ := Graph.function?_of_mem_nodes c n hn hk
    have hf := View.detail_ofNode_of_function n folder hk hgroup
    refine ⟨folder, n.name, info, hi, hj, fun positions hp => ?_,
      fun layout viewport start₀ e he actions now => ?_⟩
    · rw [← hf]
      exact View.recenter_of_mem _ hg positions hp n hn
    · have hs := (start_eq_ok c layout viewport start₀ e he).1.after e c actions
      obtain ⟨_, _, _, hnode⟩ := hg.node?_of_mem _ n hn
      rw [handle, recenter_eq _ c hs, shows?_of_detail c n.id n folder n.name info hnode hf hi]
      rfl
  · rw [← View.detail_ofNode_of_folder n hk]
    exact View.recenter_of_mem _ hg positions hp n hn

/-- The function `b/f` in `a` has the id of the function `f` in `a/b`. -/
def overlapping : Codebase :=
  ⟨⟨[("a", ⟨[("b/f", ⟨some "first", []⟩)], by decide⟩),
    ("a/b", ⟨[("f", ⟨some "second", []⟩)], by decide⟩)], by decide⟩⟩

theorem node_click_finds_function_overlapping :
    let g := Graph.ofCodebase overlapping
    let v := View.ofGraph g ⟨800, 600⟩
    let places : List Point := List.replicate 3 ⟨0, 0⟩
    ∃ e, start overlapping .default ⟨800, 600⟩ 0 = .ok e ∧
      overlapping.function? "a/b" "f" = some ⟨some "second", []⟩ ∧
      (v.recenter g places "a/b/f" 7).2 = some ⟨"a/b/f", some ("a", "b/f")⟩ ∧
      ((e.after [.advance 16]).handle 20 (.recenterNode "a/b/f" .graph)).detail =
        some ⟨some (.ofFunction "b/f" ⟨some "first", []⟩), true⟩ ∧
      (v.recenter g places "a/b" 7).2 = some ⟨"a/b", none⟩ ∧
      v.recenter g places "b/f" 7 = (v, none) := by
  intro g v places
  obtain ⟨hfunction, hfolder, hmissing⟩ := node_click_finds_function overlapping
  have hf : .ofFunction "a" "b/f" 1 ∈ g.nodes := by decide +kernel
  have hd : .ofFolder "a/b" "b" 1 ∈ g.nodes := by decide +kernel
  have hm : "b/f" ∉ g.ids := by decide +kernel
  have hp : places.length = g.nodeCount := by decide +kernel
  obtain ⟨e, he⟩ := exists_start_default overlapping ⟨800, 600⟩ 0
  obtain ⟨folder, name, info, hi, _, hanswer, hdetail⟩ := hfunction _ hf rfl
  obtain ⟨_, _, hcenter⟩ := hanswer places hp
  obtain ⟨_, _, hempty⟩ := hfolder _ hd rfl places hp
  have hplace : (v.recenter g places "a/b/f" 7).2 = some ⟨"a/b/f", some ("a", "b/f")⟩ := by
    decide +kernel
  have hfirst : overlapping.function? "a" "b/f" = some ⟨some "first", []⟩ := by decide
  cases (hcenter v 7).1.symm.trans hplace
  cases hi.symm.trans hfirst
  exact ⟨e, he, by decide, hplace, hdetail _ _ _ e he [.advance 16] 20, (hempty v 7).1,
    hmissing _ hm places v 7⟩

end Explorer

end CodeAtlas

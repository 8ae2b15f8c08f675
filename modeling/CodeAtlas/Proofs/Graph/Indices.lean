import Mathlib.Data.Finset.Card
import Mathlib.Data.List.GetD
import CodeAtlas.Proofs.Graph.Growth

namespace CodeAtlas.Graph

def endsAt (g : Graph) (edge node : Nat) : Bool :=
  g.endpoints[edge]?.any fun ends => ends.1 == node || ends.2 == node

theorem Indexed.indexOf?_lt (g : Graph) (hg : g.Indexed) (id : NodeId) (i : Nat)
    (h : g.indexOf? id = some i) : i < g.nodeCount := by
  rw [hg.indexOf?_eq_some_iff] at h
  simpa [ids, nodeCount] using (List.getElem?_eq_some_iff.mp h).1

theorem Resolved.touches_eq (g : Graph) (hg : g.Resolved) (id : NodeId) (i : Nat)
    (hi : g.indexOf? id = some i) (e : Edge) (he : e ∈ g.edges.toList) :
    e.touches id = ((g.positions e).1 == i || (g.positions e).2 == i) := by
  obtain ⟨hs, ht⟩ := hg.indexOf?_eq g e he
  have hend : ∀ end' p, g.indexOf? end' = some p → ((end' == id) = (p == i)) := by
    intro end' p hp
    rw [Bool.eq_iff_iff, beq_iff_eq, beq_iff_eq]
    constructor
    · rintro rfl
      exact Option.some.inj (hp.symm.trans hi)
    · rintro rfl
      exact hg.indexed.indexOf?_inj end' id p hp hi
  rw [Edge.touches, hend e.source _ hs, hend e.target _ ht]

theorem Resolved.getD_touches (g : Graph) (hg : g.Resolved) (id : NodeId) (i : Nat)
    (hi : g.indexOf? id = some i) (k : Nat) :
    (g.edges.toList.map (·.touches id)).getD k false = g.endsAt k i := by
  have hp : g.endpoints[k]? = g.edges.toList[k]?.map g.positions := by
    rw [← Array.getElem?_toList, hg.endpoints_eq, List.getElem?_map]
  rw [endsAt, hp, List.getD_eq_getElem?_getD, List.getElem?_map]
  cases he : g.edges.toList[k]? with
  | none => rfl
  | some e => exact hg.touches_eq g id i hi e (List.mem_of_getElem? he)

theorem mem_incidentEdges (g : Graph) (id : NodeId) (k : Nat) :
    k ∈ g.incidentEdges id ↔ (g.edges.toList.map (·.touches id)).getD k false = true := by
  rw [incidentEdges, List.getD_eq_getElem?_getD, List.getElem?_map]
  simp only [List.mem_map, List.mem_filter, Prod.exists, List.mem_zipIdx_iff_getElem?]
  constructor
  · rintro ⟨e, _, ⟨he, ht⟩, rfl⟩
    simp_all
  · intro h
    cases he : g.edges.toList[k]? with
    | none => simp [he] at h
    | some e => exact ⟨e, k, ⟨he, by simpa [he] using h⟩, rfl⟩

theorem Indexed.mem_ids_of_indexOf? (g : Graph) (hg : g.Indexed) (id : NodeId) (i : Nat)
    (h : g.indexOf? id = some i) : id ∈ g.ids :=
  List.mem_of_getElem? ((hg.indexOf?_eq_some_iff id i).mp h)

theorem Resolved.endpoints_getElem? (g : Graph) (hg : g.Resolved) (k : Nat) (e : Edge)
    (he : g.edges[k]? = some e) :
    g.endpoints[k]? = some (g.positions e) ∧
      g.indexOf? e.source = some (g.positions e).1 ∧
      g.indexOf? e.target = some (g.positions e).2 := by
  rw [← Array.getElem?_toList] at he
  refine ⟨?_, hg.indexOf?_eq g e (List.mem_of_getElem? he)⟩
  rw [← Array.getElem?_toList, hg.endpoints_eq, List.getElem?_map, he]
  rfl

theorem Resolved.size_endpoints (g : Graph) (hg : g.Resolved) :
    g.endpoints.size = g.edges.size := by
  rw [← Array.length_toList, hg.endpoints_eq, List.length_map, Array.length_toList]

theorem Resolved.lt_of_mem_endpoints (g : Graph) (hg : g.Resolved) (p : Nat × Nat)
    (h : p ∈ g.endpoints.toList) : p.1 < g.nodeCount ∧ p.2 < g.nodeCount := by
  rw [hg.endpoints_eq] at h
  obtain ⟨e, he, rfl⟩ := List.mem_map.mp h
  obtain ⟨hs, ht⟩ := hg.indexOf?_eq g e he
  exact ⟨hg.indexed.indexOf?_lt g e.source _ hs, hg.indexed.indexOf?_lt g e.target _ ht⟩

theorem pairwise_incidentEdges (g : Graph) (id : NodeId) :
    (g.incidentEdges id).Pairwise (· < ·) := by
  have hs : (g.incidentEdges id).Sublist (List.range' 0 g.edges.toList.length) := by
    rw [← List.zipIdx_map_snd]
    exact List.filter_sublist.map Prod.snd
  exact List.Pairwise.sublist hs List.pairwise_lt_range'

theorem Resolved.incidentEdges_of_none (g : Graph) (hg : g.Resolved) (id : NodeId)
    (h : g.indexOf? id = none) : g.incidentEdges id = [] := by
  rw [incidentEdges, List.map_eq_nil_iff, List.filter_eq_nil_iff]
  rintro ⟨e, k⟩ he ht
  have hm : e ∈ g.edges.toList := List.fst_mem_of_mem_zipIdx he
  obtain ⟨hs, ht'⟩ := hg.indexOf?_eq g e hm
  rw [Edge.touches, Bool.or_eq_true, beq_iff_eq, beq_iff_eq] at ht
  rcases ht with rfl | rfl
  · exact absurd (hs.symm.trans h) (Option.some_ne_none _)
  · exact absurd (ht'.symm.trans h) (Option.some_ne_none _)

theorem Resolved.mem_incidentEdges_iff (g : Graph) (hg : g.Resolved) (id : NodeId) (k : Nat) :
    k ∈ g.incidentEdges id ↔ ∃ i, g.indexOf? id = some i ∧ g.endsAt k i = true := by
  cases hi : g.indexOf? id with
  | none => simp [hg.incidentEdges_of_none g id hi]
  | some i =>
    rw [mem_incidentEdges, hg.getD_touches g id i hi]
    simp

theorem card_toFinset_eq {α : Type} [DecidableEq α] (l : List α) :
    l.toFinset.card = (firstOccurrences l).length := by
  rw [firstOccurrences_eq_dedup, List.length_reverse, ← List.card_toFinset, List.toFinset_reverse]

theorem Resolved.duplicateEdges_add (g : Graph) (hg : g.Resolved) :
    g.duplicateEdges + (g.edges.toList.map fun e => (e.source, e.target)).toFinset.card =
      g.edgeCount := by
  have hinj : ∀ a ∈ g.edges.toList, ∀ b ∈ g.edges.toList,
      (a.source, a.target) = (b.source, b.target) → a = b := by
    rintro ⟨s, t⟩ _ ⟨s', t'⟩ _ h
    cases h
    rfl
  have hle := length_firstOccurrences_le g.edges.toList
  rw [hg.duplicateEdges_eq, card_toFinset_eq, firstOccurrences_map _ _ hinj, List.length_map]
  exact Nat.sub_add_cancel (by simpa [edgeCount] using hle)

/-- The second graph goes on from the first: what an index or an id means in the first graph, it
means in the second one. -/
structure Extends (g h : Graph) : Prop where
  node : ∀ (i : Nat) n, g.nodes[i]? = some n → h.nodes[i]? = some n
  edge : ∀ (k : Nat) e, g.edges[k]? = some e → h.edges[k]? = some e
  ends : ∀ (k : Nat) p, g.endpoints[k]? = some p → h.endpoints[k]? = some p
  index : ∀ id i, g.indexOf? id = some i → h.indexOf? id = some i

theorem Extends.refl (g : Graph) : Extends g g :=
  ⟨fun _ _ h => h, fun _ _ h => h, fun _ _ h => h, fun _ _ h => h⟩

theorem Extends.trans (f g h : Graph) (hf : Extends f g) (hg : Extends g h) : Extends f h where
  node i n hn := hg.node i n (hf.node i n hn)
  edge k e he := hg.edge k e (hf.edge k e he)
  ends k p hp := hg.ends k p (hf.ends k p hp)
  index id i hi := hg.index id i (hf.index id i hi)

theorem getElem?_push_of_some {α : Type} (xs : Array α) (x y : α) (i : Nat) (h : xs[i]? = some y) :
    (xs.push x)[i]? = some y := by
  obtain ⟨hi, rfl⟩ := Array.getElem?_eq_some_iff.mp h
  rw [Array.getElem?_push_lt hi]

theorem Extends.addNode (g : Graph) (n : Node) : Extends g (g.addNode n).1 where
  node i m hm := by
    rcases addNode_cases g n with ⟨h, _⟩ | ⟨h, _⟩ <;> rw [h]
    · exact hm
    · exact getElem?_push_of_some g.nodes n m i hm
  edge k e he := by rwa [edges_addNode]
  ends k p hp := by rwa [endpoints_addNode]
  index id i hi := indexOf?_addNode g n id i hi

theorem Extends.addEdge (g : Graph) (e : Edge) : Extends g (g.addEdge e).1 where
  node i n hn := by rwa [nodes_addEdge]
  edge k e' he := by
    rcases addEdge_cases g e with ⟨h, _⟩ | ⟨s, t, _, _, h⟩ <;> rw [h]
    · exact he
    · exact getElem?_push_of_some g.edges e e' k he
  ends k p hp := by
    rcases addEdge_cases g e with ⟨h, _⟩ | ⟨s, t, _, _, h⟩ <;> rw [h]
    · exact hp
    · exact getElem?_push_of_some g.endpoints (s, t) p k hp
  index id i hi := by rwa [indexOf?_addEdge]

theorem extends_grown (steps more : List Step) : Extends (grown steps) (grown (steps ++ more)) := by
  induction more using List.reverseRecOn with
  | nil =>
    rw [List.append_nil]
    exact Extends.refl _
  | append_singleton more s ih =>
    rw [← List.append_assoc, grown_concat]
    cases s with
    | node n => exact ih.trans _ _ _ (.addNode _ n)
    | edge e => exact ih.trans _ _ _ (.addEdge _ e)

section Results

variable {g : Graph} (hg : g.Indexed)

include hg

theorem Indexed.addNode_of_mem (n : Node) (h : n.id ∈ g.ids) : g.addNode n = (g, false) := by
  rcases addNode_cases g n with ⟨hadd, _⟩ | ⟨_, hnew⟩
  · exact hadd
  · exact absurd h ((hg.indexOf?_eq_none_iff n.id).mp hnew)

theorem Indexed.addNode_of_notMem (n : Node) (h : n.id ∉ g.ids) :
    (g.addNode n).2 = true ∧ (g.addNode n).1.nodes[g.nodeCount]? = some n ∧
      (g.addNode n).1.indexOf? n.id = some g.nodeCount := by
  rcases addNode_cases g n with ⟨_, hmem⟩ | ⟨hadd, _⟩
  · exact absurd ((hg.mem_keys_iff n.id).mp hmem) h
  · rw [hadd]
    refine ⟨rfl, Array.getElem?_push_size, ?_⟩
    rw [indexOf?, OrderedMap.get?_insert, if_pos rfl]
    rfl

theorem Indexed.addEdge_of_notMem (e : Edge) (h : ¬ (e.source ∈ g.ids ∧ e.target ∈ g.ids)) :
    g.addEdge e = (g, none) := by
  rcases addEdge_cases g e with ⟨hadd, _⟩ | ⟨s, t, hs, ht, _⟩
  · exact hadd
  · exact absurd ⟨hg.mem_ids_of_indexOf? g _ s hs, hg.mem_ids_of_indexOf? g _ t ht⟩ h

theorem Indexed.addEdge_of_mem (e : Edge) (hs : e.source ∈ g.ids) (ht : e.target ∈ g.ids) :
    (g.addEdge e).2 = some g.edgeCount ∧ (g.addEdge e).1.edges[g.edgeCount]? = some e := by
  obtain ⟨hedges, hresult⟩ := hg.edges_addEdge e hs ht
  refine ⟨hresult, ?_⟩
  rw [← Array.getElem?_toList, hedges, edgeCount, ← Array.length_toList]
  exact List.getElem?_concat_length

end Results

/-- What holds of every graph that was grown from nothing, whatever was refused on the way: ids, the
map of their positions, edges and recorded ends agree, and go on doing so under the same indices. -/
theorem grown_consistent (steps : List Step) :
    let g := grown steps
    (g.ids.Nodup ∧ (∀ id, id ∈ g.index.keys ↔ id ∈ g.ids) ∧
        ∀ id i, g.index.get? id = some i ↔ g.ids[i]? = some id) ∧
      (g.endpoints.size = g.edges.size ∧
        ∀ (k : Nat) e, g.edges[k]? = some e →
          ∃ s t, g.endpoints[k]? = some (s, t) ∧ g.indexOf? e.source = some s ∧
            g.indexOf? e.target = some t) ∧
      (∀ more, Extends g (grown (steps ++ more))) ∧
      (∀ id, (g.incidentEdges id).Pairwise (· < ·) ∧
        (∀ k, k ∈ g.incidentEdges id ↔ ∃ i, g.indexOf? id = some i ∧ g.endsAt k i = true) ∧
        (id ∉ g.ids → g.incidentEdges id = [])) ∧
      g.duplicateEdges + (g.edges.toList.map fun e => (e.source, e.target)).toFinset.card =
        g.edgeCount ∧
      (∀ n, n.id ∈ g.ids → g.addNode n = (g, false)) ∧
      (∀ n, n.id ∉ g.ids → (g.addNode n).2 = true ∧
        ∀ more, let h := grown (steps ++ .node n :: more)
          h.indexOf? n.id = some g.nodeCount ∧ h.nodes[g.nodeCount]? = some n) ∧
      (∀ e, ¬ (e.source ∈ g.ids ∧ e.target ∈ g.ids) → g.addEdge e = (g, none)) ∧
      ∀ e, e.source ∈ g.ids → e.target ∈ g.ids → (g.addEdge e).2 = some g.edgeCount ∧
        ∀ more, (grown (steps ++ .edge e :: more)).edges[g.edgeCount]? = some e := by
  intro g
  have hr : g.Resolved := resolved_grown steps
  have hi : g.Indexed := hr.indexed
  refine ⟨⟨hi.nodup_ids, hi.mem_keys_iff, hi.indexOf?_eq_some_iff⟩, ⟨hr.size_endpoints, ?_⟩,
    extends_grown steps, ?_, hr.duplicateEdges_add, hi.addNode_of_mem, ?_, hi.addEdge_of_notMem, ?_⟩
  · intro k e he
    exact ⟨_, _, hr.endpoints_getElem? g k e he⟩
  · intro id
    refine ⟨pairwise_incidentEdges g id, hr.mem_incidentEdges_iff g id, ?_⟩
    intro hn
    exact hr.incidentEdges_of_none g id ((hi.indexOf?_eq_none_iff id).mpr hn)
  · intro n hn
    obtain ⟨hadded, hnode, hindex⟩ := hi.addNode_of_notMem n hn
    refine ⟨hadded, fun more => ?_⟩
    have hlater := extends_grown (steps ++ [.node n]) more
    rw [grown_concat, List.append_assoc] at hlater
    exact ⟨hlater.index _ _ hindex, hlater.node _ _ hnode⟩
  · intro e hs ht
    obtain ⟨hresult, hedge⟩ := hi.addEdge_of_mem e hs ht
    refine ⟨hresult, fun more => ?_⟩
    have hlater := extends_grown (steps ++ [.edge e]) more
    rw [grown_concat, List.append_assoc] at hlater
    exact hlater.edge _ _ hedge

end CodeAtlas.Graph

import Mathlib.Data.List.Forall2
import CodeAtlas.Graph.Structure
import CodeAtlas.Proofs.OrderedMap

namespace CodeAtlas.Graph

def ids (g : Graph) : List NodeId :=
  g.nodes.toList.map Node.id

/-- The map of positions tells where the nodes are. -/
def Indexed (g : Graph) : Prop :=
  g.index.Locates some g.ids

section Results

variable (g : Graph) (n : Node) (e : Edge)

theorem addNode_cases :
    (g.addNode n = (g, false) ∧ n.id ∈ g.index.keys) ∨
      g.addNode n = ({ g with nodes := g.nodes.push n
                              index := g.index.insert n.id g.nodes.size }, true) ∧
        g.index.get? n.id = none := by
  rw [addNode, contains]
  split
  · next h => exact Or.inl ⟨rfl, (g.index.contains_iff n.id).mp h⟩
  · next h => exact Or.inr ⟨rfl, by simpa [OrderedMap.contains] using h⟩

theorem addEdge_cases :
    (g.addEdge e = (g, none) ∧ ¬ (e.source ∈ g.index.keys ∧ e.target ∈ g.index.keys)) ∨
      ∃ s t, g.indexOf? e.source = some s ∧ g.indexOf? e.target = some t ∧
        g.addEdge e = ({ g with edges := g.edges.push e
                                endpoints := g.endpoints.push (s, t) }, some g.edgeCount) := by
  rw [addEdge]
  simp only [OrderedMap.mem_keys_iff]
  cases hs : g.indexOf? e.source with
  | none =>
    refine Or.inl ⟨rfl, fun h => ?_⟩
    obtain ⟨i, hi⟩ := h.1
    cases hs.symm.trans hi
  | some s =>
    cases ht : g.indexOf? e.target with
    | none =>
      refine Or.inl ⟨rfl, fun h => ?_⟩
      obtain ⟨i, hi⟩ := h.2
      cases ht.symm.trans hi
    | some t => exact Or.inr ⟨s, t, rfl, rfl, rfl⟩

@[simp] theorem edges_addNode : (g.addNode n).1.edges = g.edges := by
  rcases addNode_cases g n with ⟨h, _⟩ | ⟨h, _⟩ <;> rw [h]

@[simp] theorem endpoints_addNode : (g.addNode n).1.endpoints = g.endpoints := by
  rcases addNode_cases g n with ⟨h, _⟩ | ⟨h, _⟩ <;> rw [h]

@[simp] theorem nodes_addEdge : (g.addEdge e).1.nodes = g.nodes := by
  rcases addEdge_cases g e with ⟨h, _⟩ | ⟨_, _, _, _, h⟩ <;> rw [h]

@[simp] theorem index_addEdge : (g.addEdge e).1.index = g.index := by
  rcases addEdge_cases g e with ⟨h, _⟩ | ⟨_, _, _, _, h⟩ <;> rw [h]

@[simp] theorem ids_addEdge : (g.addEdge e).1.ids = g.ids := by
  simp [ids]

@[simp] theorem indexOf?_addEdge (id : NodeId) : (g.addEdge e).1.indexOf? id = g.indexOf? id := by
  simp [indexOf?]

theorem indexOf?_addNode (id : NodeId) (i : Nat) (h : g.indexOf? id = some i) :
    (g.addNode n).1.indexOf? id = some i := by
  rcases addNode_cases g n with ⟨hadd, _⟩ | ⟨hadd, hnew⟩
  · rw [hadd]
    exact h
  · have hne : id ≠ n.id := by
      rintro rfl
      cases hnew.symm.trans h
    rw [hadd, indexOf?, OrderedMap.get?_insert, if_neg hne]
    exact h

end Results

section Indexed

variable {g : Graph}

theorem contains_eq (g : Graph) (id : NodeId) : g.contains id = (g.indexOf? id).isSome :=
  rfl

theorem exists_indexOf? (g : Graph) (id : NodeId) (h : g.contains id = true) :
    ∃ i, g.indexOf? id = some i :=
  Option.isSome_iff_exists.mp h

theorem indexed_empty : empty.Indexed :=
  OrderedMap.locates_empty some

theorem Indexed.addNode (h : g.Indexed) (n : Node) : (g.addNode n).1.Indexed := by
  rcases addNode_cases g n with ⟨hadd, _⟩ | ⟨hadd, hnew⟩
  · rwa [hadd]
  · have hsize : g.nodes.size = g.ids.length := by simp [ids]
    have hids : (g.nodes.push n).toList.map Node.id = g.ids ++ [n.id] := by simp [ids]
    rw [hadd, Indexed, ids, hids, hsize]
    exact h.concat n.id n.id rfl hnew

theorem Indexed.addEdge (h : g.Indexed) (e : Edge) : (g.addEdge e).1.Indexed := by
  rwa [Indexed, index_addEdge, ids_addEdge]

theorem Indexed.mem_keys_iff (h : g.Indexed) (id : NodeId) : id ∈ g.index.keys ↔ id ∈ g.ids := by
  rw [OrderedMap.Locates.mem_keys_iff h]
  simp

theorem Indexed.contains_iff (h : g.Indexed) (id : NodeId) :
    g.contains id = true ↔ id ∈ g.ids := by
  rw [contains, OrderedMap.contains_iff, h.mem_keys_iff]

theorem Indexed.indexOf?_eq_none_iff (h : g.Indexed) (id : NodeId) :
    g.indexOf? id = none ↔ id ∉ g.ids := by
  rw [← h.contains_iff, contains, OrderedMap.contains, Bool.not_eq_true,
    Option.isSome_eq_false_iff, Option.isNone_iff_eq_none]
  rfl

theorem getElem?_ids (g : Graph) (i : Nat) : g.ids[i]? = g.nodes[i]?.map Node.id := by
  rw [ids, List.getElem?_map, Array.getElem?_toList]

theorem Indexed.indexOf?_eq_some_iff (h : g.Indexed) (id : NodeId) (i : Nat) :
    g.indexOf? id = some i ↔ g.ids[i]? = some id := by
  rw [indexOf?, h id i]
  cases g.ids[i]? <;> rfl

theorem Indexed.nodup_ids (h : g.Indexed) : g.ids.Nodup := by
  rw [List.nodup_iff_getElem?_ne_getElem?]
  intro i j hij hj he
  have hi : g.ids[j]? = some g.ids[j] := List.getElem?_eq_getElem hj
  have hget := (h.indexOf?_eq_some_iff g.ids[j] i).mpr (he.trans hi)
  have hget' := (h.indexOf?_eq_some_iff g.ids[j] j).mpr hi
  cases hget.symm.trans hget'
  exact Nat.lt_irrefl _ hij

theorem Indexed.id_of_indexOf? (h : g.Indexed) (id : NodeId) (i : Nat)
    (hi : g.indexOf? id = some i) : g.nodes[i]?.map Node.id = some id := by
  rw [← getElem?_ids]
  exact (h.indexOf?_eq_some_iff id i).mp hi

theorem Indexed.indexOf?_inj (h : g.Indexed) (id id' : NodeId) (i : Nat)
    (hi : g.indexOf? id = some i) (hi' : g.indexOf? id' = some i) : id = id' := by
  have he := (h.id_of_indexOf? id i hi).symm.trans (h.id_of_indexOf? id' i hi')
  exact Option.some.inj he

theorem Indexed.indexOf?_of_getElem? (h : g.Indexed) (i : Nat) (n : Node)
    (hi : g.nodes[i]? = some n) : g.indexOf? n.id = some i := by
  rw [h.indexOf?_eq_some_iff, getElem?_ids, hi]
  rfl

/-- What the map finds is what a search finds. -/
theorem Indexed.indexOf?_eq_findIdx? (h : g.Indexed) (id : NodeId) :
    g.indexOf? id = g.nodes.findIdx? (·.id == id) := by
  cases hf : g.nodes.findIdx? (·.id == id) with
  | none =>
    rw [Array.findIdx?_eq_none_iff] at hf
    rw [h.indexOf?_eq_none_iff, ids, List.mem_map]
    rintro ⟨n, hn, rfl⟩
    simpa using hf n (Array.mem_toList_iff.mp hn)
  | some i =>
    obtain ⟨hi, he, _⟩ := Array.findIdx?_eq_some_iff_getElem.mp hf
    rw [h.indexOf?_eq_some_iff, getElem?_ids, Array.getElem?_eq_getElem hi]
    simpa using he

theorem Indexed.node?_eq_find? (h : g.Indexed) (id : NodeId) :
    g.node? id = g.nodes.toList.find? (·.id == id) := by
  rw [Array.find?_toList, Array.find?_eq_bind_findIdx?_getElem?, ← h.indexOf?_eq_findIdx?]
  rfl

theorem Indexed.nodes_eq (h : g.Indexed) : g.nodes.toList = g.ids.filterMap g.node? := by
  simp only [funext h.node?_eq_find?]
  exact (filterMap_find?_keys Node.id _ h.nodup_ids).symm

theorem Indexed.ids_addNode (h : g.Indexed) (n : Node) :
    (g.addNode n).1.ids = if n.id ∈ g.ids then g.ids else g.ids ++ [n.id] := by
  rcases addNode_cases g n with ⟨hadd, hmem⟩ | ⟨hadd, hnew⟩
  · rw [hadd, if_pos ((h.mem_keys_iff n.id).mp hmem)]
  · rw [hadd, if_neg ((h.indexOf?_eq_none_iff n.id).mp hnew)]
    simp [ids]

theorem Indexed.node?_addNode (h : g.Indexed) (n : Node) (id : NodeId) :
    (g.addNode n).1.node? id = (g.node? id).or (if n.id = id then some n else none) := by
  rw [(h.addNode n).node?_eq_find?, h.node?_eq_find?]
  rcases addNode_cases g n with ⟨hadd, hmem⟩ | ⟨hadd, _⟩
  · rw [hadd]
    obtain ⟨m, hm, he⟩ := List.mem_map.mp ((h.mem_keys_iff n.id).mp hmem)
    by_cases hid : n.id = id
    · have hs : (g.nodes.toList.find? (·.id == id)).isSome := by
        rw [List.find?_isSome]
        exact ⟨m, hm, by simp [he, hid]⟩
      rw [Option.or_of_isSome hs]
    · simp [hid]
  · rw [hadd]
    by_cases hid : n.id = id <;> simp [hid]

theorem Indexed.edges_addEdge (h : g.Indexed) (e : Edge) (hs : e.source ∈ g.ids)
    (ht : e.target ∈ g.ids) :
    (g.addEdge e).1.edges.toList = g.edges.toList ++ [e] ∧
      (g.addEdge e).2 = some g.edgeCount := by
  rw [← h.mem_keys_iff] at hs ht
  rcases addEdge_cases g e with ⟨_, hno⟩ | ⟨s, t, _, _, hadd⟩
  · exact absurd ⟨hs, ht⟩ hno
  · rw [hadd]
    exact ⟨Array.toList_push, rfl⟩

end Indexed

/-- The positions of the ids are known, and the recorded endpoints of every edge are the positions
of its two ends. -/
structure Resolved (g : Graph) : Prop where
  indexed : g.Indexed
  ends : List.Forall₂
    (fun e p => g.indexOf? e.source = some p.1 ∧ g.indexOf? e.target = some p.2)
    g.edges.toList g.endpoints.toList

theorem Resolved.addNode (g : Graph) (n : Node) (h : g.Resolved) : (g.addNode n).1.Resolved := by
  refine ⟨h.indexed.addNode n, ?_⟩
  rw [edges_addNode, endpoints_addNode]
  exact h.ends.imp fun e p hp => ⟨indexOf?_addNode g n _ _ hp.1, indexOf?_addNode g n _ _ hp.2⟩

theorem Resolved.addEdge (g : Graph) (e : Edge) (h : g.Resolved) : (g.addEdge e).1.Resolved := by
  refine ⟨h.indexed.addEdge e, ?_⟩
  simp only [indexOf?_addEdge]
  rcases addEdge_cases g e with ⟨hadd, _⟩ | ⟨s, t, hs, ht, hadd⟩
  · rw [hadd]
    exact h.ends
  · rw [hadd, Array.toList_push, Array.toList_push]
    exact List.rel_append h.ends (.cons ⟨hs, ht⟩ .nil)

def positions (g : Graph) (e : Edge) : Nat × Nat :=
  ((g.indexOf? e.source).getD 0, (g.indexOf? e.target).getD 0)

theorem Resolved.endpoints_eq (g : Graph) (h : g.Resolved) :
    g.endpoints.toList = g.edges.toList.map g.positions := by
  have hends := h.ends
  generalize g.edges.toList = edges, g.endpoints.toList = endpoints at hends ⊢
  induction hends with
  | nil => rfl
  | cons hp _ ih => rw [List.map_cons, ← ih, positions, hp.1, hp.2]; rfl

theorem Resolved.indexOf?_eq (g : Graph) (h : g.Resolved) (e : Edge) (he : e ∈ g.edges.toList) :
    g.indexOf? e.source = some (g.positions e).1 ∧
      g.indexOf? e.target = some (g.positions e).2 := by
  have hends := h.ends
  generalize g.edges.toList = edges, g.endpoints.toList = endpoints at hends he
  induction hends with
  | nil => exact absurd he List.not_mem_nil
  | cons hp _ ih =>
    rcases List.mem_cons.mp he with rfl | he
    · simp [positions, hp.1, hp.2]
    · exact ih he

theorem Resolved.duplicateEdges_eq (g : Graph) (h : g.Resolved) :
    g.duplicateEdges = g.edgeCount - (firstOccurrences g.edges.toList).length := by
  have hf : ∀ a ∈ g.edges.toList, ∀ b ∈ g.edges.toList, g.positions a = g.positions b → a = b := by
    intro a ha b hb hab
    obtain ⟨has, hat⟩ := h.indexOf?_eq g a ha
    obtain ⟨hbs, hbt⟩ := h.indexOf?_eq g b hb
    rw [← hab] at hbs hbt
    have hs : a.source = b.source := h.indexed.indexOf?_inj _ _ _ has hbs
    have ht : a.target = b.target := h.indexed.indexOf?_inj _ _ _ hat hbt
    cases a
    cases b
    exact congrArg₂ Edge.mk hs ht
  rw [duplicateEdges, ← Array.length_toList, h.endpoints_eq, firstOccurrences_map _ _ hf,
    List.length_map, List.length_map, Array.length_toList]
  rfl

def grown (steps : List Step) : Graph :=
  steps.foldl apply empty

def addedNodes (steps : List Step) : List Node :=
  steps.filterMap fun
    | .node n => some n
    | .edge _ => none

def addedEdges (steps : List Step) : List Edge :=
  steps.filterMap fun
    | .node _ => none
    | .edge e => some e

def addedIds (steps : List Step) : List NodeId :=
  (addedNodes steps).map Node.id

@[simp] theorem grown_concat (steps : List Step) (s : Step) :
    grown (steps ++ [s]) = (grown steps).apply s := by
  rw [grown, List.foldl_append]
  rfl

@[simp] theorem addedNodes_append (a b : List Step) :
    addedNodes (a ++ b) = addedNodes a ++ addedNodes b :=
  List.filterMap_append

@[simp] theorem addedEdges_append (a b : List Step) :
    addedEdges (a ++ b) = addedEdges a ++ addedEdges b :=
  List.filterMap_append

@[simp] theorem addedNodes_flatMap {α : Type} (f : α → List Step) (l : List α) :
    addedNodes (l.flatMap f) = l.flatMap fun a => addedNodes (f a) :=
  List.filterMap_flatMap

@[simp] theorem addedEdges_flatMap {α : Type} (f : α → List Step) (l : List α) :
    addedEdges (l.flatMap f) = l.flatMap fun a => addedEdges (f a) :=
  List.filterMap_flatMap

@[simp] theorem addedIds_append (a b : List Step) :
    addedIds (a ++ b) = addedIds a ++ addedIds b := by
  rw [addedIds, addedNodes_append, List.map_append]
  rfl

theorem resolved_grown (steps : List Step) : (grown steps).Resolved := by
  induction steps using List.reverseRecOn with
  | nil => exact ⟨indexed_empty, .nil⟩
  | append_singleton steps s ih =>
    rw [grown_concat]
    cases s with
    | node n => exact ih.addNode _ n
    | edge e => exact ih.addEdge _ e

theorem indexed_grown (steps : List Step) : (grown steps).Indexed :=
  (resolved_grown steps).indexed

theorem ids_grown (steps : List Step) : (grown steps).ids = firstOccurrences (addedIds steps) := by
  induction steps using List.reverseRecOn with
  | nil => rfl
  | append_singleton steps s ih =>
    rw [grown_concat, addedIds_append]
    cases s with
    | node n =>
      have hn : addedIds [.node n] = [n.id] := rfl
      rw [apply, (indexed_grown steps).ids_addNode, ih, hn, firstOccurrences_concat]
    | edge e =>
      have he : addedIds [.edge e] = [] := rfl
      rw [apply, ids_addEdge, he, List.append_nil, ih]

theorem node?_grown (steps : List Step) (id : NodeId) :
    (grown steps).node? id = (addedNodes steps).find? (·.id == id) := by
  induction steps using List.reverseRecOn with
  | nil => rfl
  | append_singleton steps s ih =>
    rw [grown_concat, addedNodes_append, List.find?_append, ← ih]
    cases s with
    | node n =>
      rw [apply, (indexed_grown steps).node?_addNode]
      by_cases h : n.id = id <;> simp [addedNodes, h]
    | edge e => simp [apply, node?, addedNodes]

/-- Every edge comes after both of its ends. -/
inductive Grounded : List Step → Prop where
  | nil : Grounded []
  | node {steps : List Step} (n : Node) (h : Grounded steps) : Grounded (steps ++ [.node n])
  | edge {steps : List Step} (e : Edge) (hs : e.source ∈ addedIds steps)
      (ht : e.target ∈ addedIds steps) (h : Grounded steps) : Grounded (steps ++ [.edge e])

/-- No edge of a grounded list of steps is refused. -/
theorem edges_grown (steps : List Step) (h : Grounded steps) :
    (grown steps).edges.toList = addedEdges steps := by
  induction h with
  | nil => rfl
  | node n _ ih =>
    rw [grown_concat, apply, edges_addNode, ih, addedEdges_append]
    exact (List.append_nil _).symm
  | @edge steps e hs ht _ ih =>
    rw [← mem_firstOccurrences, ← ids_grown] at hs ht
    rw [grown_concat, apply, ((indexed_grown steps).edges_addEdge e hs ht).1, ih, addedEdges_append]
    rfl

theorem Grounded.ends_mem (steps : List Step) (h : Grounded steps) (e : Edge)
    (he : e ∈ addedEdges steps) : e.source ∈ addedIds steps ∧ e.target ∈ addedIds steps := by
  induction h with
  | nil => exact absurd he List.not_mem_nil
  | node n _ ih =>
    rw [addedEdges_append, addedIds_append] at *
    have he' := (List.mem_append.mp he).resolve_right List.not_mem_nil
    exact ⟨List.mem_append_left _ (ih he').1, List.mem_append_left _ (ih he').2⟩
  | edge e' hs ht _ ih =>
    rw [addedEdges_append] at he
    rw [addedIds_append]
    rcases List.mem_append.mp he with he | he
    · exact ⟨List.mem_append_left _ (ih he).1, List.mem_append_left _ (ih he).2⟩
    · obtain rfl := List.mem_singleton.mp he
      exact ⟨List.mem_append_left _ hs, List.mem_append_left _ ht⟩

end CodeAtlas.Graph

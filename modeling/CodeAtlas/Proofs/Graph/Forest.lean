import Mathlib.Logic.Relation
import Mathlib.Data.List.Perm.Basic
import CodeAtlas.Proofs.Graph.Structure

namespace CodeAtlas.Graph

def IsParent (g : Graph) (a b : NodeId) : Prop :=
  (⟨a, b⟩ : Edge) ∈ g.edges

theorem mem_folderEdges (a b path : String) :
    (⟨a, b⟩ : Edge) ∈ folderEdges path ↔
      Path.AtOrAbove b path ∧ ∃ s, '/' ∉ s.toList ∧ b = Path.join a s := by
  induction path using Path.induction_on with
  | top r hr =>
    rw [folderEdges_of_notMem r hr, Path.atOrAbove_of_notMem b r hr]
    refine ⟨fun h => absurd h List.not_mem_nil, ?_⟩
    rintro ⟨rfl, s, _, rfl⟩
    exact absurd (Path.slash_mem_join a s) hr
  | below p s hs ih =>
    rw [folderEdges_join p s hs, List.mem_append, ih, Path.atOrAbove_join b p s hs,
      List.mem_singleton, Edge.mk.injEq]
    constructor
    · rintro (⟨hb, h⟩ | ⟨rfl, rfl⟩)
      · exact ⟨Or.inl hb, h⟩
      · exact ⟨Or.inr rfl, s, hs, rfl⟩
    · rintro ⟨hb | rfl, t, ht, h⟩
      · exact Or.inl ⟨hb, t, ht, h⟩
      · exact Or.inr ⟨(Path.join_inj p a s t hs ht h).1.symm, rfl⟩

theorem isParent_ofCodebase (c : Codebase) (a b : NodeId) :
    (ofCodebase c).IsParent a b ↔
      (∃ path ∈ c.folders.keys, Path.AtOrAbove b path ∧
        ∃ s, '/' ∉ s.toList ∧ b = Path.join a s) ∨
      ∃ e ∈ c.folders.entries, ∃ name ∈ e.2.keys, a = e.1 ∧ b = Path.join a name := by
  rw [IsParent, ← Array.mem_toList_iff, edges_ofCodebase, edgeSequence, List.mem_flatMap]
  simp only [List.mem_append, mem_folderEdges, functionEdges, List.mem_map, Edge.mk.injEq]
  constructor
  · rintro ⟨e, he, h | ⟨name, hn, rfl, rfl⟩⟩
    · exact Or.inl ⟨e.1, List.mem_map_of_mem he, h⟩
    · exact Or.inr ⟨e, he, name, hn, rfl, rfl⟩
  · rintro (⟨path, hp, h⟩ | ⟨e, he, name, hn, rfl, rfl⟩)
    · obtain ⟨e, he, rfl⟩ := List.mem_map.mp hp
      exact ⟨e, he, Or.inl h⟩
    · exact ⟨e, he, Or.inr ⟨name, hn, rfl, rfl⟩⟩

theorem IsParent.eq_join (c : Codebase) (a b : NodeId) (h : (ofCodebase c).IsParent a b) :
    ∃ s, b = Path.join a s := by
  rcases (isParent_ofCodebase c a b).mp h with ⟨_, _, _, s, _, hb⟩ | ⟨_, _, s, _, _, hb⟩
  · exact ⟨s, hb⟩
  · exact ⟨s, hb⟩

theorem IsParent.slashes_lt (c : Codebase) (a b : NodeId) (h : (ofCodebase c).IsParent a b) :
    Path.slashes a < Path.slashes b := by
  obtain ⟨s, rfl⟩ := h.eq_join c a b
  rw [Path.slashes_join]
  omega

theorem IsParent.mem_ids (c : Codebase) (a b : NodeId) (h : (ofCodebase c).IsParent a b) :
    a ∈ (ofCodebase c).ids ∧ b ∈ (ofCodebase c).ids := by
  rw [IsParent, ← Array.mem_toList_iff, edges_ofCodebase, ← addedEdges_steps] at h
  rw [ids_ofCodebase, ← addedNodes_steps, mem_firstOccurrences, mem_firstOccurrences]
  exact (grounded_steps c).ends_mem _ _ h

/-- Whatever is not at the top has a parent. -/
theorem exists_isParent (c : Codebase) (b : NodeId) (hb : b ∈ (ofCodebase c).ids)
    (hs : '/' ∈ b.toList) : ∃ a, (ofCodebase c).IsParent a b := by
  simp only [isParent_ofCodebase]
  rcases (mem_ids_ofCodebase c b).mp hb with ⟨path, hp, h⟩ | ⟨e, he, name, hn, rfl⟩
  -- a folder is cut at its last slash, a function at the one before its name
  · induction b using Path.induction_on with
    | top r hr => exact absurd hs hr
    | below a s hns _ => exact ⟨a, Or.inl ⟨path, hp, h, s, hns, rfl⟩⟩
  · exact ⟨e.1, Or.inr ⟨e, he, name, hn, rfl, rfl⟩⟩

theorem slash_mem_of_isParent (c : Codebase) (a b : NodeId) (h : (ofCodebase c).IsParent a b) :
    '/' ∈ b.toList := by
  obtain ⟨s, rfl⟩ := h.eq_join c a b
  exact Path.slash_mem_join a s

theorem filter_ids_ofCodebase (c : Codebase) :
    (ofCodebase c).ids.filter (fun id => '/' ∉ id.toList) = c.roots := by
  have hn : ∀ path folder,
      ((functionNodes path folder).map Node.id).filter (fun id => '/' ∉ id.toList) = [] := by
    intro path folder
    rw [List.filter_eq_nil_iff]
    intro id hid
    obtain ⟨n, hn, rfl⟩ := List.mem_map.mp hid
    obtain ⟨name, _, rfl⟩ := List.mem_map.mp hn
    exact fun h => of_decide_eq_true h (Path.slash_mem_join path name)
  rw [ids_ofCodebase, filter_firstOccurrences, Codebase.roots, nodeSequence, OrderedMap.keys]
  congr 1
  induction c.folders.entries with
  | nil => rfl
  | cons e rest ih =>
    rw [List.flatMap_cons, List.map_append, List.filter_append, ih, List.map_append,
      List.filter_append, ids_folderNodes, Path.filter_stems, hn]
    rfl

theorem length_ids_ofCodebase (c : Codebase) :
    (ofCodebase c).nodeCount =
      ((ofCodebase c).ids.filter (fun id => '/' ∈ id.toList)).length + c.roots.length := by
  have hl : (ofCodebase c).nodeCount = (ofCodebase c).ids.length := by
    rw [ids, List.length_map, Array.length_toList]
    rfl
  have hs := (ofCodebase c).ids.length_eq_length_filter_add (fun id => '/' ∈ id.toList)
  rw [hl, hs, ← filter_ids_ofCodebase]
  simp only [decide_not]

theorem slashes_lt_of_transGen (c : Codebase) (a b : NodeId)
    (h : Relation.TransGen (ofCodebase c).IsParent a b) : Path.slashes a < Path.slashes b := by
  induction h with
  | single h => exact h.slashes_lt
  | tail _ h ih => exact ih.trans h.slashes_lt

theorem reachable_of_atOrAbove (c : Codebase) (id path : String) (hp : path ∈ c.folders.keys)
    (h : Path.AtOrAbove id path) :
    Relation.ReflTransGen (ofCodebase c).IsParent (Path.root path) id := by
  induction id using Path.induction_on with
  | top r hr =>
    rw [← Path.root_of_atOrAbove r path h, Path.root_of_notMem r hr]
  | below p s hs ih =>
    have hpp : Path.AtOrAbove p path := by
      rcases h with rfl | ⟨rest, rfl⟩
      · exact Or.inr ⟨s, rfl⟩
      · exact Or.inr ⟨Path.join s rest, Path.join_assoc p s rest⟩
    exact (ih hpp).tail ((isParent_ofCodebase c p _).mpr (Or.inl ⟨path, hp, h, s, hs, rfl⟩))

theorem mem_roots (c : Codebase) (path : String) (hp : path ∈ c.folders.keys) :
    Path.root path ∈ c.roots :=
  (mem_firstOccurrences _ _).mpr (List.mem_map_of_mem hp)

theorem exists_root_reaching (c : Codebase) (id : NodeId) (h : id ∈ (ofCodebase c).ids) :
    ∃ r ∈ c.roots, Relation.ReflTransGen (ofCodebase c).IsParent r id := by
  rcases (mem_ids_ofCodebase c id).mp h with ⟨path, hp, hi⟩ | ⟨e, he, name, hn, rfl⟩
  · exact ⟨Path.root path, mem_roots c path hp, reachable_of_atOrAbove c id path hp hi⟩
  · have hp : e.1 ∈ c.folders.keys := List.mem_map_of_mem he
    refine ⟨Path.root e.1, mem_roots c e.1 hp, ?_⟩
    exact (reachable_of_atOrAbove c e.1 e.1 hp (Or.inl rfl)).tail
      ((isParent_ofCodebase c e.1 _).mpr (Or.inr ⟨e, he, name, hn, rfl, rfl⟩))

/-- The level of a node is the number of slashes in its id, edges go one level down, and below the
top every node has exactly one parent, though perhaps by several edges. -/
structure IsForest (g : Graph) : Prop where
  level_eq : ∀ n ∈ g.nodes, n.level = Path.slashes n.id
  level_succ : ∀ e ∈ g.edges, ∃ a b, g.node? e.source = some a ∧ g.node? e.target = some b ∧
    b.level = a.level + 1
  parent : ∀ n ∈ g.nodes, '/' ∈ n.id.toList → ∃! p, g.IsParent p n.id

/-- No function's name looks like a path. -/
def PlainNames (c : Codebase) : Prop :=
  ∀ e ∈ c.folders.entries, ∀ name ∈ e.2.keys, '/' ∉ name.toList

theorem PlainNames.parent_eq (c : Codebase) (hc : PlainNames c) (a b : NodeId)
    (h : (ofCodebase c).IsParent a b) : ∃ s, '/' ∉ s.toList ∧ b = Path.join a s := by
  rcases (isParent_ofCodebase c a b).mp h with ⟨_, _, _, hs⟩ | ⟨e, he, name, hn, _, hb⟩
  · exact hs
  · exact ⟨name, hc e he name hn, hb⟩

theorem PlainNames.parent_unique (c : Codebase) (hc : PlainNames c) (a a' b : NodeId)
    (h : (ofCodebase c).IsParent a b) (h' : (ofCodebase c).IsParent a' b) : a = a' := by
  obtain ⟨s, hs, hb⟩ := hc.parent_eq c a b h
  obtain ⟨s', hs', hb'⟩ := hc.parent_eq c a' b h'
  exact (Path.join_inj a a' s s' hs hs' (hb.symm.trans hb')).1

theorem level_folderNodes (path : String) (n : Node) (h : n ∈ folderNodes path) :
    n.level = Path.slashes n.id := by
  induction path using Path.induction_on with
  | top r hr =>
    rw [folderNodes_of_notMem r hr, List.mem_singleton] at h
    rw [h]
    exact (Path.slashes_of_notMem r hr).symm
  | below p s hs ih =>
    rw [folderNodes_join p s hs, List.mem_append, List.mem_singleton] at h
    rcases h with h | rfl
    · exact ih h
    · change Path.slashes p + 1 = Path.slashes (Path.join p s)
      rw [Path.slashes_join_of_notMem p s hs]

theorem PlainNames.level_eq (c : Codebase) (hc : PlainNames c) (n : Node)
    (h : n ∈ nodeSequence c) : n.level = Path.slashes n.id := by
  obtain ⟨e, he, h⟩ := List.mem_flatMap.mp h
  rcases List.mem_append.mp h with h | h
  · exact level_folderNodes e.1 n h
  · obtain ⟨name, hn, rfl⟩ := List.mem_map.mp h
    change (Path.segments e.1).length = Path.slashes (Path.join e.1 name)
    rw [Path.length_segments, Path.slashes_join_of_notMem e.1 name (hc e he name hn)]

theorem exists_node_level (c : Codebase) (hc : PlainNames c) (id : NodeId)
    (h : id ∈ (ofCodebase c).ids) :
    ∃ n, (ofCodebase c).node? id = some n ∧ n.level = Path.slashes id := by
  rw [ids_ofCodebase, mem_firstOccurrences] at h
  obtain ⟨m, hm, he⟩ := List.mem_map.mp h
  rw [node?_ofCodebase]
  cases hn : (nodeSequence c).find? (·.id == id) with
  | none => exact absurd he (by simpa using List.find?_eq_none.mp hn m hm)
  | some n =>
    have hid : n.id = id := by simpa using List.find?_some hn
    exact ⟨n, rfl, hid ▸ hc.level_eq c n (List.mem_of_find?_eq_some hn)⟩

theorem mem_nodeSequence (c : Codebase) (n : Node) (h : n ∈ (ofCodebase c).nodes) :
    n ∈ nodeSequence c := by
  rw [← Array.mem_toList_iff, (indexed_ofCodebase c).nodes_eq] at h
  obtain ⟨id, _, hn⟩ := List.mem_filterMap.mp h
  rw [node?_ofCodebase] at hn
  exact List.mem_of_find?_eq_some hn

theorem kind_folderNodes (path : String) (n : Node) (h : n ∈ folderNodes path) :
    n.kind = .folder := by
  obtain ⟨i, hi, rfl⟩ := List.mem_mapIdx.mp h
  rfl

theorem exists_function? (c : Codebase) (e : String × Folder) (he : e ∈ c.folders.entries)
    (name : String) (hn : name ∈ e.2.keys) : ∃ info, c.function? e.1 name = some info := by
  obtain ⟨entry, hentry, rfl⟩ := List.mem_map.mp hn
  refine ⟨entry.2, ?_⟩
  rw [Codebase.function?, Codebase.folder?, (OrderedMap.mem_entries_iff _ _ _).mp he]
  exact (OrderedMap.mem_entries_iff _ _ _).mp hentry

/-- Behind every function node there is a function, in the folder that is the node's group, and its
id is the node's. -/
theorem function?_of_mem_nodes (c : Codebase) (n : Node) (h : n ∈ (ofCodebase c).nodes)
    (hk : n.kind = .function) :
    ∃ folder info, n.group = some folder ∧ Path.join folder n.name = n.id ∧
      c.function? folder n.name = some info := by
  obtain ⟨e, he, h⟩ := List.mem_flatMap.mp (mem_nodeSequence c n h)
  rcases List.mem_append.mp h with h | h
  · rw [kind_folderNodes e.1 n h] at hk
    cases hk
  · obtain ⟨name, hn, rfl⟩ := List.mem_map.mp h
    obtain ⟨info, hi⟩ := exists_function? c e he name hn
    exact ⟨e.1, info, rfl, rfl, hi⟩

theorem isForest_ofCodebase (c : Codebase) (hc : PlainNames c) : IsForest (ofCodebase c) where
  level_eq n h := hc.level_eq c n (mem_nodeSequence c n h)
  level_succ e h := by
    have hp : (ofCodebase c).IsParent e.source e.target := h
    obtain ⟨hs, ht⟩ := hp.mem_ids
    obtain ⟨a, ha, hla⟩ := exists_node_level c hc e.source hs
    obtain ⟨b, hb, hlb⟩ := exists_node_level c hc e.target ht
    refine ⟨a, b, ha, hb, ?_⟩
    obtain ⟨s, hns, he⟩ := hc.parent_eq c e.source e.target hp
    rw [hlb, hla, he, Path.slashes_join_of_notMem e.source s hns]
  parent n h hs := by
    have hid : n.id ∈ (ofCodebase c).ids := List.mem_map_of_mem (Array.mem_toList_iff.mpr h)
    obtain ⟨p, hp⟩ := exists_isParent c n.id hid hs
    exact ⟨p, hp, fun q hq => hc.parent_unique c q p n.id hq hp⟩

/-- Each distinct edge has its own target, and these are the nodes below the top. -/
theorem PlainNames.length_distinct (c : Codebase) (hc : PlainNames c) :
    (firstOccurrences (ofCodebase c).edges.toList).length =
      ((ofCodebase c).ids.filter (fun id => '/' ∈ id.toList)).length := by
  -- the parent is unique, so edges with one target are the same edge
  have hinj : ∀ e ∈ (ofCodebase c).edges.toList, ∀ e' ∈ (ofCodebase c).edges.toList,
      e.target = e'.target → e = e' := by
    rintro ⟨a, b⟩ he ⟨a', b'⟩ he' rfl
    rw [hc.parent_unique c a a' b (Array.mem_toList_iff.mp he) (Array.mem_toList_iff.mp he')]
  have hmem : ∀ id, id ∈ (ofCodebase c).edges.toList.map Edge.target ↔
      id ∈ (ofCodebase c).ids.filter (fun id => '/' ∈ id.toList) := by
    intro id
    rw [List.mem_filter, decide_eq_true_iff]
    constructor
    · intro h
      obtain ⟨e, he, rfl⟩ := List.mem_map.mp h
      have hp : (ofCodebase c).IsParent e.source e.target := Array.mem_toList_iff.mp he
      exact ⟨hp.mem_ids.2, slash_mem_of_isParent c _ _ hp⟩
    · rintro ⟨hid, hs⟩
      obtain ⟨p, hp⟩ := exists_isParent c id hid hs
      exact List.mem_map.mpr ⟨⟨p, id⟩, Array.mem_toList_iff.mpr hp, rfl⟩
  rw [← List.length_map (f := Edge.target), ← firstOccurrences_map _ _ hinj]
  apply List.Perm.length_eq
  rw [List.perm_ext_iff_of_nodup (nodup_firstOccurrences _)
    ((nodup_ids_ofCodebase c).filter _)]
  intro id
  rw [mem_firstOccurrences, hmem]

/-- If no function's name has a slash, the structure graph is a forest up to repeated edges, also
where a function and a folder share an id. A node is a root or has one parent, so the edges that are
not repetitions are as many as the nodes that are not roots. -/
theorem ofCodebase_forest (c : Codebase) (hc : PlainNames c) :
    IsForest (ofCodebase c) ∧
      ((ofCodebase c).duplicateEdges : Int) =
        (ofCodebase c).edgeCount - (ofCodebase c).nodeCount + c.roots.length := by
  refine ⟨isForest_ofCodebase c hc, ?_⟩
  have hr : (ofCodebase c).duplicateEdges = (ofCodebase c).edgeCount -
      (firstOccurrences (ofCodebase c).edges.toList).length :=
    (resolved_grown (steps c)).duplicateEdges_eq
  have hle : (firstOccurrences (ofCodebase c).edges.toList).length ≤ (ofCodebase c).edgeCount :=
    length_firstOccurrences_le _
  have hn := length_ids_ofCodebase c
  rw [← hc.length_distinct] at hn
  omega

/-- A function with the id of a folder that comes before it, and one with the id of a folder that
comes after it. -/
def shared : Codebase :=
  ⟨⟨[("a/f", .empty), ("a", ⟨[("f", ⟨none, []⟩), ("g", ⟨none, []⟩)], by decide⟩),
    ("a/g", .empty)], by decide⟩⟩

theorem ofCodebase_forest_shared :
    PlainNames shared ∧ IsForest (ofCodebase shared) ∧
      ((ofCodebase shared).duplicateEdges : Int) =
        (ofCodebase shared).edgeCount - (ofCodebase shared).nodeCount + shared.roots.length := by
  have h : PlainNames shared := by
    unfold PlainNames
    decide
  exact ⟨h, ofCodebase_forest shared h⟩

end CodeAtlas.Graph

import Mathlib.Algebra.GroupWithZero.Nat
import CodeAtlas.Proofs.Graph.Growth
import CodeAtlas.Proofs.Path

namespace CodeAtlas.Graph

def folderNodes (path : String) : List Node :=
  (Path.segments path).mapIdx fun i segment => .ofFolder (Path.stem path i) segment i

def folderEdges (path : String) : List Edge :=
  (List.range ((Path.segments path).length - 1)).map fun i =>
    ⟨Path.stem path i, Path.stem path (i + 1)⟩

def functionNodes (path : String) (folder : Folder) : List Node :=
  folder.keys.map fun name => .ofFunction path name (Path.segments path).length

def functionEdges (path : String) (folder : Folder) : List Edge :=
  folder.keys.map fun name => ⟨path, Path.join path name⟩

/-- The nodes that a codebase calls for, in document order and as often as it does. -/
def nodeSequence (c : Codebase) : List Node :=
  c.folders.entries.flatMap fun (path, folder) => folderNodes path ++ functionNodes path folder

def edgeSequence (c : Codebase) : List Edge :=
  c.folders.entries.flatMap fun (path, folder) => folderEdges path ++ functionEdges path folder

theorem stepsBelow_concat (parent : NodeId) (level : Nat) (l : List (String × String))
    (path segment : String) :
    stepsBelow parent level (l ++ [(path, segment)]) = stepsBelow parent level l ++
      [.node (.ofFolder path segment (level + l.length)),
        .edge ⟨(l.getLast?.map Prod.fst).getD parent, path⟩] := by
  induction l generalizing parent level with
  | nil => rfl
  | cons e l ih =>
    have hl : level + 1 + l.length = level + (l.length + 1) := by omega
    simp only [List.cons_append, stepsBelow, ih, hl, List.length_cons, List.getLast?_cons]
    cases l.getLast? <;> rfl

theorem folderSteps_of_notMem (r : String) (hr : '/' ∉ r.toList) :
    folderSteps r = [.node (.ofFolder r r 0)] := by
  rw [folderSteps, Path.trail_of_notMem r hr]
  rfl

theorem trail_ends (path : String) :
    (Path.trail path).length = Path.slashes path + 1 ∧
      ∃ segment, (Path.trail path).getLast? = some (path, segment) := by
  induction path using Path.induction_on with
  | top r hr =>
    rw [Path.trail_of_notMem r hr, Path.slashes_of_notMem r hr]
    exact ⟨rfl, r, rfl⟩
  | below p s hs ih =>
    rw [Path.trail_join p s hs, List.length_append, ih.1, Path.slashes_join_of_notMem p s hs]
    exact ⟨rfl, s, List.getLast?_concat⟩

theorem folderSteps_join (p s : String) (hs : '/' ∉ s.toList) :
    folderSteps (Path.join p s) = folderSteps p ++
      [.node (.ofFolder (Path.join p s) s (Path.slashes p + 1)), .edge ⟨p, Path.join p s⟩] := by
  obtain ⟨hlen, segment, hlast⟩ := trail_ends p
  rw [folderSteps, folderSteps, Path.trail_join p s hs]
  cases ht : Path.trail p with
  | nil => simp [ht] at hlen
  | cons e rest =>
    rw [ht, List.length_cons] at hlen
    have hlevel : 1 + rest.length = Path.slashes p + 1 := by omega
    rw [ht, List.getLast?_cons] at hlast
    have hparent : (rest.getLast?.map Prod.fst).getD e.1 = p := by
      cases hr : rest.getLast? <;> simp_all
    simp only [List.cons_append, stepsBelow_concat, hlevel, hparent]

theorem folderNodes_of_notMem (r : String) (hr : '/' ∉ r.toList) :
    folderNodes r = [.ofFolder r r 0] := by
  simp [folderNodes, Path.segments_of_notMem r hr, Path.stem_of_notMem r hr]

theorem folderNodes_join (p s : String) (hs : '/' ∉ s.toList) :
    folderNodes (Path.join p s) =
      folderNodes p ++ [.ofFolder (Path.join p s) s (Path.slashes p + 1)] := by
  have hl := Path.length_segments p
  have hm : (Path.segments p).mapIdx
      (fun i segment => Node.ofFolder (Path.stem (Path.join p s) i) segment i) =
      folderNodes p := by
    apply List.mapIdx_eq_mapIdx_iff.mpr
    intro i hi
    rw [Path.stem_join_of_le p s i (by omega)]
  rw [folderNodes, Path.segments_join, Path.segments_of_notMem s hs, List.mapIdx_concat, hm, hl,
    Path.stem_join_self p s hs]

theorem folderEdges_of_notMem (r : String) (hr : '/' ∉ r.toList) : folderEdges r = [] := by
  simp [folderEdges, Path.segments_of_notMem r hr]

theorem folderEdges_join (p s : String) (hs : '/' ∉ s.toList) :
    folderEdges (Path.join p s) = folderEdges p ++ [⟨p, Path.join p s⟩] := by
  have hlast : Path.stem (Path.join p s) (Path.slashes p) = p := by
    rw [Path.stem_join_of_le p s _ (Nat.le_refl _), Path.stem_slashes]
  have hm : (List.range (Path.slashes p)).map (fun i =>
      (⟨Path.stem (Path.join p s) i, Path.stem (Path.join p s) (i + 1)⟩ : Edge)) =
      (List.range (Path.slashes p)).map fun i => ⟨Path.stem p i, Path.stem p (i + 1)⟩ := by
    apply List.map_congr_left
    intro i hi
    have hlt := List.mem_range.mp hi
    rw [Path.stem_join_of_le p s i (by omega), Path.stem_join_of_le p s (i + 1) (by omega)]
  rw [folderEdges, folderEdges, Path.length_segments, Path.length_segments,
    Path.slashes_join_of_notMem p s hs, Nat.add_sub_cancel, Nat.add_sub_cancel, List.range_succ,
    List.map_append, hm, List.map_singleton, hlast, Path.stem_join_self p s hs]

@[simp] theorem addedNodes_folderSteps (path : String) :
    addedNodes (folderSteps path) = folderNodes path := by
  induction path using Path.induction_on with
  | top r hr =>
    rw [folderSteps_of_notMem r hr, folderNodes_of_notMem r hr]
    rfl
  | below p s hs ih =>
    rw [folderSteps_join p s hs, folderNodes_join p s hs, addedNodes_append, ih]
    rfl

@[simp] theorem addedEdges_folderSteps (path : String) :
    addedEdges (folderSteps path) = folderEdges path := by
  induction path using Path.induction_on with
  | top r hr =>
    rw [folderSteps_of_notMem r hr, folderEdges_of_notMem r hr]
    rfl
  | below p s hs ih =>
    rw [folderSteps_join p s hs, folderEdges_join p s hs, addedEdges_append, ih]
    rfl

@[simp] theorem ids_folderNodes (path : String) :
    (folderNodes path).map Node.id = Path.stems path := by
  induction path using Path.induction_on with
  | top r hr =>
    rw [folderNodes_of_notMem r hr, Path.stems_of_notMem r hr]
    rfl
  | below p s hs ih =>
    rw [folderNodes_join p s hs, Path.stems_join p s hs, List.map_append, ih]
    rfl

theorem mem_addedIds_folderSteps (path : String) : path ∈ addedIds (folderSteps path) := by
  rw [addedIds, addedNodes_folderSteps, ids_folderNodes]
  exact (Path.mem_stems_iff path path).mpr (Or.inl rfl)

theorem Grounded.folderSteps (steps : List Step) (h : Grounded steps) (path : String) :
    Grounded (steps ++ folderSteps path) := by
  induction path using Path.induction_on with
  | top r hr =>
    rw [folderSteps_of_notMem r hr]
    exact .node _ h
  | below p s hs ih =>
    rw [folderSteps_join p s hs, ← List.append_assoc, List.append_cons]
    refine .edge _ ?_ ?_ (.node _ ih)
    · simp [mem_addedIds_folderSteps p]
    · rw [addedIds_append]
      exact List.mem_append_right _ List.mem_cons_self

@[simp] theorem addedNodes_functionSteps (path : String) (folder : Folder) :
    addedNodes (functionSteps path folder) = functionNodes path folder := by
  rw [functionSteps, addedNodes_flatMap, functionNodes, List.map_eq_flatMap]
  rfl

@[simp] theorem addedEdges_functionSteps (path : String) (folder : Folder) :
    addedEdges (functionSteps path folder) = functionEdges path folder := by
  rw [functionSteps, addedEdges_flatMap, functionEdges, List.map_eq_flatMap]
  rfl

theorem Grounded.functionSteps (steps : List Step) (h : Grounded steps) (path : String)
    (hp : path ∈ addedIds steps) (folder : Folder) :
    Grounded (steps ++ functionSteps path folder) := by
  simp only [Graph.functionSteps]
  induction folder.keys generalizing steps with
  | nil => simpa using h
  | cons name names ih =>
    rw [List.flatMap_cons, ← List.append_assoc, List.append_cons]
    apply ih
    · refine .edge _ ?_ ?_ (.node _ h)
      · exact addedIds_append steps _ ▸ List.mem_append_left _ hp
      · exact addedIds_append steps _ ▸ List.mem_append_right _ List.mem_cons_self
    · rw [addedIds_append, addedIds_append]
      exact List.mem_append_left _ (List.mem_append_left _ hp)

@[simp] theorem addedNodes_steps (c : Codebase) : addedNodes (steps c) = nodeSequence c := by
  rw [steps, addedNodes_flatMap, nodeSequence]
  apply List.flatMap_congr
  rintro ⟨path, folder⟩ _
  rw [addedNodes_append, addedNodes_folderSteps, addedNodes_functionSteps]

@[simp] theorem addedEdges_steps (c : Codebase) : addedEdges (steps c) = edgeSequence c := by
  rw [steps, addedEdges_flatMap, edgeSequence]
  apply List.flatMap_congr
  rintro ⟨path, folder⟩ _
  rw [addedEdges_append, addedEdges_folderSteps, addedEdges_functionSteps]

theorem grounded_steps (c : Codebase) : Grounded (steps c) := by
  simp only [steps]
  -- folders are taken in document order: a path is there by the time its functions are
  induction c.folders.entries using List.reverseRecOn with
  | nil => exact .nil
  | append_singleton entries e ih =>
    rw [List.flatMap_append, List.flatMap_singleton, ← List.append_assoc]
    refine (ih.folderSteps _ e.1).functionSteps _ e.1 ?_ e.2
    rw [addedIds_append]
    exact List.mem_append_right _ (mem_addedIds_folderSteps e.1)

theorem ids_ofCodebase (c : Codebase) :
    (ofCodebase c).ids = firstOccurrences ((nodeSequence c).map Node.id) := by
  rw [← addedNodes_steps]
  exact ids_grown (steps c)

theorem indexed_ofCodebase (c : Codebase) : (ofCodebase c).Indexed :=
  indexed_grown (steps c)

theorem nodup_ids_ofCodebase (c : Codebase) : (ofCodebase c).ids.Nodup :=
  (indexed_ofCodebase c).nodup_ids

theorem node?_ofCodebase (c : Codebase) (id : NodeId) :
    (ofCodebase c).node? id = (nodeSequence c).find? (·.id == id) := by
  rw [← addedNodes_steps]
  exact node?_grown (steps c) id

@[simp] theorem edges_ofCodebase (c : Codebase) : (ofCodebase c).edges.toList = edgeSequence c := by
  rw [← addedEdges_steps]
  exact edges_grown (steps c) (grounded_steps c)

theorem mem_ids_ofCodebase (c : Codebase) (id : NodeId) :
    id ∈ (ofCodebase c).ids ↔
      (∃ path ∈ c.folders.keys, Path.AtOrAbove id path) ∨
        ∃ e ∈ c.folders.entries, ∃ name ∈ e.2.keys, id = Path.join e.1 name := by
  rw [ids_ofCodebase, mem_firstOccurrences, nodeSequence, List.map_flatMap, List.mem_flatMap]
  simp only [List.map_append, ids_folderNodes, List.mem_append, Path.mem_stems_iff, functionNodes,
    List.map_map, List.mem_map, Function.comp_apply]
  constructor
  · rintro ⟨e, he, h | ⟨name, hn, h⟩⟩
    · exact Or.inl ⟨e.1, List.mem_map_of_mem he, h⟩
    · exact Or.inr ⟨e, he, name, hn, h.symm⟩
  · rintro (⟨path, hp, h⟩ | ⟨e, he, name, hn, h⟩)
    · obtain ⟨e, he, rfl⟩ := List.mem_map.mp hp
      exact ⟨e, he, Or.inl h⟩
    · exact ⟨e, he, Or.inr ⟨name, hn, h.symm⟩⟩

theorem length_edgeSequence (c : Codebase) :
    (edgeSequence c).length =
      (c.folders.keys.map fun path => (Path.segments path).length - 1).sum + c.functionCount := by
  simp only [edgeSequence, OrderedMap.keys, Codebase.functionCount, OrderedMap.values]
  induction c.folders.entries with
  | nil => rfl
  | cons e rest ih =>
    have hf : (folderEdges e.1).length = (Path.segments e.1).length - 1 := by simp [folderEdges]
    have hn : (functionEdges e.1 e.2).length = e.2.size := by
      simp [functionEdges, OrderedMap.keys, OrderedMap.size]
    simp only [List.flatMap_cons, List.length_append, ih, hf, hn, List.map_cons, List.sum_cons,
      List.foldr_cons]
    omega

/-- The structure graph, told without the order of its making. Folders and functions share their
ids: whatever comes up first under an id is the node, whether it is a folder or a function. No
edge is lost to that, since an id that is taken is as good an end as one that is new. -/
theorem ofCodebase_contents (c : Codebase) :
    (ofCodebase c).ids.Nodup ∧
      (∀ id, id ∈ (ofCodebase c).ids ↔
        (∃ path ∈ c.folders.keys, Path.AtOrAbove id path) ∨
          ∃ e ∈ c.folders.entries, ∃ name ∈ e.2.keys, id = Path.join e.1 name) ∧
      (ofCodebase c).nodes.toList =
        (firstOccurrences ((nodeSequence c).map Node.id)).filterMap
          (fun id => (nodeSequence c).find? (·.id == id)) ∧
      (ofCodebase c).edges.toList = addedEdges (steps c) ∧
      (ofCodebase c).edges.toList = edgeSequence c ∧
      (ofCodebase c).edgeCount =
        (c.folders.keys.map fun path => (Path.segments path).length - 1).sum + c.functionCount := by
  have hi := ids_ofCodebase c
  have hd := nodup_ids_ofCodebase c
  have he := edges_ofCodebase c
  refine ⟨hd, mem_ids_ofCodebase c, ?_, ?_, he, ?_⟩
  · rw [(indexed_ofCodebase c).nodes_eq, hi]
    exact List.filterMap_congr fun id _ => node?_ofCodebase c id
  · rw [addedEdges_steps, he]
  · rw [← length_edgeSequence, ← he, Array.length_toList]
    rfl

end CodeAtlas.Graph

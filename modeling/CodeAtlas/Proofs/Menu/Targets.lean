import CodeAtlas.Proofs.Menu.Roots

namespace CodeAtlas

@[simp] theorem Path.map_fst_trail (path : String) : (trail path).map Prod.fst = stems path := by
  induction path using induction_on with
  | top r hr =>
    rw [trail_of_notMem r hr, stems_of_notMem r hr]
    rfl
  | below p s hs ih =>
    rw [trail_join p s hs, stems_join p s hs, List.map_append, ih]
    rfl

def Codebase.allFolders (c : Codebase) : List String :=
  firstOccurrences (c.folders.keys.flatMap Path.stems)

theorem Codebase.mem_allFolders (c : Codebase) (p : String) :
    p ∈ c.allFolders ↔ ∃ path ∈ c.folders.keys, Path.AtOrAbove p path := by
  simp only [allFolders, mem_firstOccurrences, List.mem_flatMap, Path.mem_stems_iff]

namespace Menu

theorem map_firstOccurrences_concat (m : Menu) (hm : m.Located) (l : List String) (path : String)
    (h : m.targets = (firstOccurrences l).map .folder) :
    (firstOccurrences (l ++ [path])).map .folder =
      if (m.folder? path).isSome then m.targets else m.targets ++ [.folder path] := by
  have hmem : (m.folder? path).isSome ↔ path ∈ firstOccurrences l := by
    rw [hm.folder?_isSome_iff, h, List.mem_map_of_injective fun _ _ he => Target.folder.inj he]
  rw [firstOccurrences_concat]
  by_cases hp : path ∈ firstOccurrences l
  · rw [if_pos hp, if_pos (hmem.mpr hp), h]
  · rw [if_neg hp, if_neg (fun hs => hp (hmem.mp hs)), List.map_append, h]
    rfl

theorem targets_addFoldersBelow (trail : List (String × String)) (parent depth : Nat) (m : Menu)
    (hm : m.Located) (l : List String) (h : m.targets = (firstOccurrences l).map .folder) :
    (addFoldersBelow parent depth trail m).targets =
      (firstOccurrences (l ++ trail.map Prod.fst)).map .folder := by
  induction trail generalizing m parent depth l with
  | nil => rw [List.map_nil, List.append_nil, addFoldersBelow, h]
  | cons e trail ih =>
    have hadd := map_firstOccurrences_concat m hm l e.1 h
    rw [addFoldersBelow, List.map_cons, List.append_cons]
    cases hf : m.folder? e.1 with
    | some id =>
      rw [hf] at hadd
      exact ih id (depth + 1) m hm (l ++ [e.1]) hadd.symm
    | none =>
      rw [hf] at hadd
      apply ih
      · exact hm.addBelow m parent _ fun _ => hm.notMem_targets m e.1 hf
      · rw [targets_addBelow]
        exact hadd.symm

theorem targets_addPath (m : Menu) (hm : m.Located) (path : String) (l : List String)
    (h : m.targets = (firstOccurrences l).map .folder) :
    (m.addPath path).targets = (firstOccurrences (l ++ Path.stems path)).map .folder := by
  rw [← Path.map_fst_trail, addPath]
  cases Path.trail path with
  | nil => rw [List.map_nil, List.append_nil, h]
  | cons e rest =>
    have hadd := map_firstOccurrences_concat m hm l e.1 h
    dsimp only
    rw [List.map_cons, List.append_cons]
    cases hf : m.folder? e.1 with
    | some id =>
      rw [hf] at hadd
      exact targets_addFoldersBelow rest id 1 m hm (l ++ [e.1]) hadd.symm
    | none =>
      rw [hf] at hadd
      apply targets_addFoldersBelow
      · exact hm.addRoot m _ fun _ => hm.notMem_targets m e.1 hf
      · rw [targets_addRoot]
        exact hadd.symm

theorem targets_foldl_addPath (paths : List String) :
    (paths.foldl addPath empty).targets =
      (firstOccurrences (paths.flatMap Path.stems)).map .folder := by
  induction paths using List.reverseRecOn with
  | nil => rfl
  | append_singleton paths path ih =>
    rw [List.foldl_append, List.foldl_cons, List.foldl_nil,
      targets_addPath _ (built_foldl_addPath paths).located path _ ih, List.flatMap_append,
      List.flatMap_singleton]

theorem targets_addNames (path : String) (parent depth : Nat) (names : List String) (m : Menu) :
    (names.foldl (fun m name =>
      m.addBelow parent (.fresh name (.function path name) depth)) m).targets =
      m.targets ++ names.map (.function path) := by
  induction names generalizing m with
  | nil => simp
  | cons name names ih =>
    rw [List.foldl_cons, ih, targets_addBelow, List.append_assoc]
    rfl

theorem targets_addFunctions (m : Menu) (hm : m.Located) (path : String) (folder : Folder)
    (hp : .folder path ∈ m.targets) :
    (m.addFunctions path folder).targets = m.targets ++ folder.keys.map (.function path) := by
  obtain ⟨parent, hf⟩ := Option.isSome_iff_exists.mp ((hm.folder?_isSome_iff m path).mpr hp)
  simp only [addFunctions, hf]
  exact targets_addNames path parent _ folder.keys m

theorem targets_foldl_addFunctions (entries : List (String × Folder)) (m : Menu) (hb : m.Built)
    (hm : ∀ e ∈ entries, .folder e.1 ∈ m.targets) :
    (entries.foldl (fun m e => m.addFunctions e.1 e.2) m).targets =
      m.targets ++ entries.flatMap fun e => e.2.keys.map (.function e.1) := by
  induction entries generalizing m with
  | nil => simp
  | cons e entries ih =>
    have he := targets_addFunctions m hb.located e.1 e.2 (hm e List.mem_cons_self)
    have hrest : ∀ e' ∈ entries, .folder e'.1 ∈ (m.addFunctions e.1 e.2).targets := by
      intro e' he'
      rw [he]
      exact List.mem_append_left _ (hm e' (List.mem_cons_of_mem e he'))
    rw [List.foldl_cons, ih _ (hb.addFunctions m e.1 e.2) hrest, he, List.flatMap_cons,
      List.append_assoc]

theorem targets_ofCodebase (c : Codebase) :
    (ofCodebase c).targets =
      c.allFolders.map .folder ++
        c.folders.entries.flatMap fun e => e.2.keys.map (.function e.1) := by
  have hfolders := targets_foldl_addPath c.folders.keys
  rw [ofCodebase, targets_foldl_addFunctions _ _ (built_foldl_addPath _), hfolders,
    Codebase.allFolders]
  intro e he
  rw [hfolders]
  apply List.mem_map_of_mem
  exact (c.mem_allFolders e.1).mpr ⟨e.1, List.mem_map_of_mem he, Or.inl rfl⟩

/-- A menu has every folder on some path and every function, and nothing else. -/
theorem mem_targets_ofCodebase (c : Codebase) (t : Target) :
    t ∈ (ofCodebase c).targets ↔
      (∃ path ∈ c.folders.keys, ∃ p, Path.AtOrAbove p path ∧ t = .folder p) ∨
        ∃ e ∈ c.folders.entries, ∃ name ∈ e.2.keys, t = .function e.1 name := by
  rw [targets_ofCodebase, List.mem_append, List.mem_map, List.mem_flatMap]
  simp only [Codebase.mem_allFolders, List.mem_map]
  constructor
  · rintro (⟨p, ⟨path, hpath, hp⟩, rfl⟩ | ⟨e, he, name, hn, rfl⟩)
    · exact Or.inl ⟨path, hpath, p, hp, rfl⟩
    · exact Or.inr ⟨e, he, name, hn, rfl⟩
  · rintro (⟨path, hpath, p, hp, rfl⟩ | ⟨e, he, name, hn, rfl⟩)
    · exact Or.inl ⟨p, ⟨path, hpath, hp⟩, rfl⟩
    · exact Or.inr ⟨e, he, name, hn, rfl⟩

theorem mem_ids_ofCodebase_iff (c : Codebase) (id : NodeId) :
    id ∈ (Graph.ofCodebase c).ids ↔ ∃ t ∈ (ofCodebase c).targets, t.nodeId = id := by
  rw [Graph.mem_ids_ofCodebase]
  simp only [mem_targets_ofCodebase]
  constructor
  · rintro (⟨path, hp, h⟩ | ⟨e, he, name, hn, rfl⟩)
    · exact ⟨_, Or.inl ⟨path, hp, id, h, rfl⟩, rfl⟩
    · exact ⟨_, Or.inr ⟨e, he, name, hn, rfl⟩, rfl⟩
  · rintro ⟨t, ⟨path, hp, p, h, rfl⟩ | ⟨e, he, name, hn, rfl⟩, rfl⟩
    · exact Or.inl ⟨path, hp, h⟩
    · exact Or.inr ⟨e, he, name, hn, rfl⟩

@[simp] theorem query_addFoldersBelow (trail : List (String × String)) (parent depth : Nat)
    (m : Menu) :
    (addFoldersBelow parent depth trail m).query = m.query := by
  induction trail generalizing m parent depth with
  | nil => rfl
  | cons e trail ih =>
    rw [addFoldersBelow]
    split
    · exact ih _ _ m
    · exact ih _ _ _

@[simp] theorem query_addPath (m : Menu) (path : String) : (m.addPath path).query = m.query := by
  rw [addPath]
  split
  · rfl
  · split
    · exact query_addFoldersBelow _ _ _ m
    · exact query_addFoldersBelow _ _ _ _

theorem query_foldl {α : Type} (f : Menu → α → Menu) (hf : ∀ m a, (f m a).query = m.query)
    (l : List α) (m : Menu) : (l.foldl f m).query = m.query := by
  apply List.foldlRecOn (motive := fun m' : Menu => m'.query = m.query)
  · rfl
  · intro m' hm a _
    rw [hf, hm]

@[simp] theorem query_addFunctions (m : Menu) (path : String) (folder : Folder) :
    (m.addFunctions path folder).query = m.query := by
  rw [addFunctions]
  split
  · rfl
  · apply query_foldl
    intro m name
    rfl

@[simp] theorem query_ofCodebase (c : Codebase) : (ofCodebase c).query = "" := by
  rw [ofCodebase, query_foldl, query_foldl _ query_addPath]
  · rfl
  · intro m e
    exact query_addFunctions m e.1 e.2

@[simp] theorem targets_toggle (m : Menu) (id : Nat) : (m.toggle id).targets = m.targets := by
  rw [targets, toggle, Array.toList_modify]
  apply map_modify_of_eq
  intro i
  split <;> rfl

@[simp] theorem targets_activate (m : Menu) (id : Nat) : (m.activate id).1.targets = m.targets := by
  rw [activate]
  split
  · rfl
  · exact targets_toggle m id
  · rfl

@[simp] theorem targets_filter (m : Menu) (query : String) :
    (m.filter query).targets = m.targets := by
  simp [targets, filter, Function.comp_def]

@[simp] theorem query_activate (m : Menu) (id : Nat) : (m.activate id).1.query = m.query := by
  rw [activate]
  split <;> rfl

theorem mem_targets_of_item? (m : Menu) (id : Nat) (item : Item) (h : m.item? id = some item) :
    item.target ∈ m.targets :=
  List.mem_map_of_mem (Array.mem_toList_iff.mpr (Array.mem_of_getElem? h))

end Menu

end CodeAtlas

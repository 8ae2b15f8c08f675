import Mathlib.Data.List.Nodup
import Mathlib.Data.List.Perm.Basic
import Mathlib.Data.Set.Card
import CodeAtlas.Proofs.Menu.Targets

namespace CodeAtlas

namespace Menu

/-- Every item is a root, or it stands below exactly one other item, and not both. What stands below
an item has a later position and is one level deeper. -/
structure IsForest (m : Menu) : Prop where
  root_or_child : ∀ i < m.size, (i ∈ m.roots ∧ ∀ p, i ∉ m.childrenOf p) ∨
    (i ∉ m.roots ∧ ∃! p, i ∈ m.childrenOf p)
  nodup_roots : m.roots.Nodup
  nodup_children : ∀ p, (m.childrenOf p).Nodup
  root_lt : ∀ i ∈ m.roots, i < m.size
  child_lt : ∀ p, ∀ i ∈ m.childrenOf p, p < i ∧ i < m.size
  depth_root : ∀ i ∈ m.roots, m.depthOf i = 0
  depth_child : ∀ p, ∀ i ∈ m.childrenOf p, m.depthOf i = m.depthOf p + 1

theorem Built.mem_roots (m : Menu) (h : m.Built) (i : Nat) :
    i ∈ m.roots ↔ ∃ t, m.targets[i]? = some t ∧ t.home? = none := by
  rw [h.roots_eq m, mem_places]

theorem Built.mem_childrenOf (m : Menu) (h : m.Built) (p i : Nat) :
    i ∈ m.childrenOf p ↔ ∃ path t, m.targets[p]? = some (.folder path) ∧
      m.targets[i]? = some t ∧ t.home? = some path := by
  rw [h.childrenOf_eq m, mem_inside]

theorem lt_size_of_getElem?_targets (m : Menu) (i : Nat) (t : Target)
    (h : m.targets[i]? = some t) : i < m.size :=
  length_targets m ▸ (List.getElem?_eq_some_iff.mp h).1

theorem Built.isForest (m : Menu) (h : m.Built) : m.IsForest where
  root_or_child i hi := by
    have hlt : i < m.targets.length := by rwa [length_targets]
    have ht : m.targets[i]? = some m.targets[i] := List.getElem?_eq_getElem hlt
    cases hhome : m.targets[i].home? with
    | none =>
      refine Or.inl ⟨(h.mem_roots m i).mpr ⟨_, ht, hhome⟩, ?_⟩
      intro p hp
      obtain ⟨path, t, _, ht', hpath⟩ := (h.mem_childrenOf m p i).mp hp
      cases ht.symm.trans ht'
      cases hhome.symm.trans hpath
    | some path =>
      obtain ⟨p, _, hp⟩ := h.housed.above i _ path ht hhome
      refine Or.inr ⟨?_, p, (h.mem_childrenOf m p i).mpr ⟨path, _, hp, ht, hhome⟩, ?_⟩
      · intro hr
        obtain ⟨t, ht', hnone⟩ := (h.mem_roots m i).mp hr
        cases ht.symm.trans ht'
        cases hhome.symm.trans hnone
      · intro q hq
        obtain ⟨path', t, hq', ht', hpath⟩ := (h.mem_childrenOf m q i).mp hq
        cases ht.symm.trans ht'
        cases hhome.symm.trans hpath
        exact h.housed.unique q p path hq' hp
  nodup_roots := by
    rw [h.roots_eq m]
    exact List.nodup_findIdxs
  nodup_children p := by
    rw [h.childrenOf_eq m, inside]
    split
    · exact List.nodup_findIdxs
    · exact List.nodup_nil
  root_lt i hi := by
    obtain ⟨t, ht, _⟩ := (h.mem_roots m i).mp hi
    exact lt_size_of_getElem?_targets m i t ht
  child_lt p i hi := by
    obtain ⟨path, t, hp, ht, hhome⟩ := (h.mem_childrenOf m p i).mp hi
    obtain ⟨q, hlt, hq⟩ := h.housed.above i t path ht hhome
    rw [h.housed.unique p q path hp hq]
    exact ⟨hlt, lt_size_of_getElem?_targets m i t ht⟩
  depth_root i hi := by
    obtain ⟨t, ht, hhome⟩ := (h.mem_roots m i).mp hi
    rw [h.depthOf_eq m i t ht, t.level_of_home?_none hhome]
  depth_child p i hi := by
    obtain ⟨path, t, hp, ht, hhome⟩ := (h.mem_childrenOf m p i).mp hi
    rw [h.depthOf_eq m i t ht, h.depthOf_eq m p _ hp, t.level_of_home? path hhome]
    rfl

def generation (m : Menu) (k : Nat) (ids : List Nat) : List Nat :=
  (fun l => l.flatMap m.childrenOf)^[k] ids

theorem preorderFrom_flatMap (m : Menu) (d : Nat) (f : Nat → List Nat) (ids : List Nat) :
    m.preorderFrom d (ids.flatMap f) = ids.flatMap fun id => m.preorderFrom d (f id) := by
  cases d with
  | zero => simp [preorderFrom]
  | succ d => simp only [preorderFrom, List.flatMap_assoc]

/-- The walk goes through the same items as one by levels. -/
theorem preorderFrom_perm (m : Menu) (d : Nat) (ids : List Nat) :
    (m.preorderFrom d ids).Perm ((List.range d).flatMap fun k => m.generation k ids) := by
  induction d generalizing ids with
  | zero => exact List.Perm.nil
  | succ d ih =>
    have hsplit : (m.preorderFrom (d + 1) ids).Perm
        (ids ++ m.preorderFrom d (ids.flatMap m.childrenOf)) := by
      rw [preorderFrom_flatMap]
      have hp := (List.flatMap_append_perm ids (fun id => [id])
        fun id => m.preorderFrom d (m.childrenOf id)).symm
      simpa [preorderFrom] using hp
    have hlevels : (List.range (d + 1)).flatMap (fun k => m.generation k ids) =
        ids ++ (List.range d).flatMap fun k => m.generation k (ids.flatMap m.childrenOf) := by
      rw [List.range_succ_eq_map, List.flatMap_cons, List.flatMap_map]
      rfl
    rw [hlevels]
    exact hsplit.trans ((ih (ids.flatMap m.childrenOf)).append_left ids)

theorem IsForest.mem_generation (m : Menu) (h : m.IsForest) (k i : Nat) :
    i ∈ m.generation k m.roots ↔ i < m.size ∧ m.depthOf i = k := by
  induction k generalizing i with
  | zero =>
    refine ⟨fun hi => ⟨h.root_lt i hi, h.depth_root i hi⟩, ?_⟩
    intro ⟨hlt, hd⟩
    obtain ⟨hr, _⟩ | ⟨_, p, hp, _⟩ := h.root_or_child i hlt
    · exact hr
    · rw [h.depth_child p i hp] at hd
      omega
  | succ k ih =>
    rw [generation, Function.iterate_succ_apply', List.mem_flatMap]
    constructor
    · intro ⟨p, hp, hi⟩
      rw [h.depth_child p i hi, ((ih p).mp hp).2]
      exact ⟨(h.child_lt p i hi).2, rfl⟩
    · intro ⟨hlt, hd⟩
      obtain ⟨hr, _⟩ | ⟨_, p, hp, _⟩ := h.root_or_child i hlt
      · rw [h.depth_root i hr] at hd
        omega
      · rw [h.depth_child p i hp] at hd
        have hlt' := h.child_lt p i hp
        exact ⟨p, (ih p).mpr ⟨by omega, by omega⟩, hp⟩

theorem IsForest.parent_unique (m : Menu) (h : m.IsForest) (p q i : Nat)
    (hp : i ∈ m.childrenOf p) (hq : i ∈ m.childrenOf q) : p = q := by
  obtain ⟨_, hno⟩ | ⟨_, hone⟩ := h.root_or_child i (h.child_lt p i hp).2
  · exact absurd hp (hno p)
  · exact hone.unique hp hq

theorem IsForest.nodup_generation (m : Menu) (h : m.IsForest) (k : Nat) :
    (m.generation k m.roots).Nodup := by
  induction k with
  | zero => exact h.nodup_roots
  | succ k ih =>
    rw [generation, Function.iterate_succ_apply', List.nodup_flatMap]
    refine ⟨fun p _ => h.nodup_children p, ih.imp ?_⟩
    intro p q hne i hp hq
    exact hne (h.parent_unique m p q i hp hq)

theorem IsForest.depthOf_le (m : Menu) (h : m.IsForest) (i : Nat) (hi : i < m.size) :
    m.depthOf i ≤ i := by
  induction i using Nat.strongRecOn with
  | ind i ih =>
    obtain ⟨hr, _⟩ | ⟨_, p, hp, _⟩ := h.root_or_child i hi
    · rw [h.depth_root i hr]
      exact Nat.zero_le i
    · have hlt := (h.child_lt p i hp).1
      have hd := ih p hlt (by omega)
      rw [h.depth_child p i hp]
      omega

theorem IsForest.preorder_perm (m : Menu) (h : m.IsForest) :
    m.preorder.Perm (List.range m.size) := by
  apply (preorderFrom_perm m m.size m.roots).trans
  rw [List.perm_ext_iff_of_nodup ?_ List.nodup_range]
  · intro i
    rw [List.mem_flatMap, List.mem_range]
    simp only [h.mem_generation m, List.mem_range]
    constructor
    · intro ⟨_, _, hi, _⟩
      exact hi
    · intro hi
      exact ⟨m.depthOf i, (h.depthOf_le m i hi).trans_lt hi, hi, rfl⟩
  · rw [List.nodup_flatMap]
    refine ⟨fun k _ => h.nodup_generation m k, List.nodup_range.imp ?_⟩
    intro j k hne i hj hk
    exact hne ((((h.mem_generation m j i).mp hj).2).symm.trans ((h.mem_generation m k i).mp hk).2)

/-- A loop that keeps on a stack what it has to visit ends, and has listed these items: of the item
on top it lists `out`, and puts `below` in its place. -/
inductive Walks (out below : Nat → List Nat) : (stack listed : List Nat) → Prop
  | done : Walks out below [] []
  | next (i : Nat) (stack listed : List Nat) : Walks out below (below i ++ stack) listed →
    Walks out below (i :: stack) (out i ++ listed)

def Visits (m : Menu) : (stack visited : List Nat) → Prop :=
  Walks ([·]) m.childrenOf

/-- The bound on the depth is never met: positions grow on the way down. -/
theorem IsForest.walks (m : Menu) (h : m.IsForest) (out below : Nat → List Nat)
    (hbelow : ∀ i, below i ⊆ m.childrenOf i) (list : Nat → List Nat → List Nat)
    (hlist : ∀ d ids, list (d + 1) ids = ids.flatMap fun i => out i ++ list d (below i))
    (hnone : ∀ ids, list 0 ids = []) (d : Nat) (ids stack listed : List Nat)
    (hids : ∀ i ∈ ids, i < m.size ∧ m.size ≤ i + d) (hw : Walks out below stack listed) :
    Walks out below (ids ++ stack) (list d ids ++ listed) := by
  induction d generalizing ids stack listed with
  | zero =>
    have hnil : ids = [] := by
      rw [List.eq_nil_iff_forall_not_mem]
      intro i hi
      have hb := hids i hi
      omega
    subst hnil
    rwa [hnone]
  | succ d ih =>
    rw [hlist]
    induction ids with
    | nil => exact hw
    | cons i ids ihids =>
      have hrest := ihids fun j hj => hids j (List.mem_cons_of_mem i hj)
      have hdown : ∀ j ∈ below i, j < m.size ∧ m.size ≤ j + d := by
        intro j hj
        have hb := hids i List.mem_cons_self
        have hlt := h.child_lt i j (hbelow i hj)
        omega
      have hinside := ih (below i) (ids ++ stack) _ hdown hrest
      rw [List.flatMap_cons, List.append_assoc, List.append_assoc]
      exact .next i _ _ hinside

theorem IsForest.walks_roots (m : Menu) (h : m.IsForest) (out below : Nat → List Nat)
    (hbelow : ∀ i, below i ⊆ m.childrenOf i) (list : Nat → List Nat → List Nat)
    (hlist : ∀ d ids, list (d + 1) ids = ids.flatMap fun i => out i ++ list d (below i))
    (hnone : ∀ ids, list 0 ids = []) : Walks out below m.roots (list m.size m.roots) := by
  have hw := h.walks m out below hbelow list hlist hnone m.size m.roots [] []
    (fun i hi => ⟨h.root_lt i hi, Nat.le_add_left _ _⟩) .done
  rwa [List.append_nil, List.append_nil] at hw

theorem IsForest.visits_preorder (m : Menu) (h : m.IsForest) : m.Visits m.roots m.preorder :=
  h.walks_roots m _ _ (fun _ => List.Subset.refl _) m.preorderFrom (fun _ _ => rfl) fun _ => rfl

theorem map_getElem?_findIdxs {α : Type} (p : α → Bool) (l : List α) :
    (l.findIdxs p).map (l[·]?) = (l.filter p).map some := by
  induction l with
  | nil => rfl
  | cons a l ih =>
    have ht : (l.findIdxs p 1).map ((a :: l)[·]?) = (l.filter p).map some := by
      rw [List.findIdxs_start, List.map_map, ← ih]
      rfl
    rw [List.findIdxs_cons, List.filter_cons]
    split
    · rw [List.map_cons, List.map_cons, ht]
      rfl
    · exact ht

end Menu

def Codebase.subfolders (c : Codebase) (path : String) : List String :=
  c.allFolders.filter (Path.parent? · == some path)

/-- A folder lists its subfolders and then, if it is in the codebase itself, its functions. -/
def Codebase.contents (c : Codebase) : Menu.Target → List Menu.Target
  | .folder path => (c.subfolders path).map .folder ++
    (((c.folder? path).map OrderedMap.keys).getD []).map (.function path)
  | .function _ _ => []

namespace Menu

theorem filter_targets_ofCodebase (c : Codebase) (path : String) :
    (ofCodebase c).targets.filter (·.home? == some path) = c.contents (.folder path) := by
  have hnames : ∀ e : String × Folder,
      (e.2.keys.map (Target.function e.1)).filter (·.home? == some path) =
        if e.1 = path then e.2.keys.map (.function path) else [] := by
    intro e
    by_cases he : e.1 = path
    · simp [he, Target.home?]
    · simp [he, Target.home?]
  rw [targets_ofCodebase, List.filter_append, List.filter_map, List.filter_flatMap]
  simp only [hnames]
  rw [OrderedMap.flatMap_entries_ite c.folders path fun f => f.keys.map (Target.function path),
    Codebase.contents, Codebase.folder?]
  congr 1
  cases c.folders.get? path with
  | none => rfl
  | some f => rfl

theorem targets_children (c : Codebase) (i : Nat) (item : Item)
    (h : (ofCodebase c).item? i = some item) :
    item.children.map (fun j => ((ofCodebase c).item? j).map Item.target) =
      (c.contents item.target).map some := by
  have hchildren : item.children = inside (ofCodebase c).targets i := by
    rw [← (built_ofCodebase c).childrenOf_eq, childrenOf, h]
    rfl
  have ht : (ofCodebase c).targets[i]? = some item.target := by
    rw [getElem?_targets, h]
    rfl
  simp only [← getElem?_targets]
  rw [hchildren, inside, ht]
  cases item.target with
  | folder path =>
    dsimp only
    rw [places, map_getElem?_findIdxs, filter_targets_ofCodebase]
  | function path name => rfl

theorem length_functions (entries : List (String × Folder)) :
    (entries.flatMap fun e => e.2.keys.map (Target.function e.1)).length =
      (entries.map Prod.snd).foldr (fun f n => f.size + n) 0 := by
  induction entries with
  | nil => rfl
  | cons e entries ih =>
    rw [List.flatMap_cons, List.length_append, ih, List.length_map, List.map_cons, List.foldr_cons,
      OrderedMap.keys, List.length_map]
    rfl

theorem size_ofCodebase (c : Codebase) :
    (ofCodebase c).size =
      {p | ∃ path ∈ c.folders.keys, Path.AtOrAbove p path}.ncard + c.functionCount := by
  have hset : {p | ∃ path ∈ c.folders.keys, Path.AtOrAbove p path} =
      (c.allFolders.toFinset : Set String) := by
    ext p
    simp [c.mem_allFolders]
  have hn : c.allFolders.Nodup := nodup_firstOccurrences _
  rw [hset, Set.ncard_coe_finset, List.toFinset_card_of_nodup hn,
    ← length_targets, targets_ofCodebase, List.length_append, List.length_map, length_functions]
  rfl

/-- The menu of a codebase is a forest, and a walk through it in display order ends and meets every
item once. It has an item for every folder on some path and one for every function. A folder has
one item, and below it stand its subfolders in the order in which they first come, then its own
functions in their order; below a function stands nothing. -/
theorem ofCodebase_hierarchy (c : Codebase) :
    (ofCodebase c).IsForest ∧
      (ofCodebase c).Visits (ofCodebase c).roots (ofCodebase c).preorder ∧
      (ofCodebase c).preorder.Perm (List.range (ofCodebase c).size) ∧
      (ofCodebase c).size =
        {p | ∃ path ∈ c.folders.keys, Path.AtOrAbove p path}.ncard + c.functionCount ∧
      (∀ i item, (ofCodebase c).item? i = some item →
        item.children.map (fun j => ((ofCodebase c).item? j).map Item.target) =
          (c.contents item.target).map some) ∧
      (∀ path i, (ofCodebase c).folder? path = some i ↔
        ((ofCodebase c).item? i).map Item.target = some (.folder path)) ∧
      ∀ path, ((ofCodebase c).folder? path).isSome ↔
        ∃ key ∈ c.folders.keys, Path.AtOrAbove path key := by
  have hb := built_ofCodebase c
  have hf := hb.isForest
  refine ⟨hf, hf.visits_preorder, hf.preorder_perm, size_ofCodebase c, targets_children c,
    ?_, ?_⟩
  · intro path i
    rw [hb.located.folder?_eq_some_iff, getElem?_targets]
  intro path
  rw [hb.located.folder?_isSome_iff, mem_targets_ofCodebase]
  constructor
  · rintro (⟨key, hk, p, hp, he⟩ | ⟨_, _, _, _, he⟩)
    · cases he
      exact ⟨key, hk, hp⟩
    · cases he
  · intro ⟨key, hk, hp⟩
    exact Or.inl ⟨key, hk, path, hp, rfl⟩

/-- A path that comes before the ones above it, a folder that no key names, empty segments, and a
function with the path of a folder. -/
def scattered : Codebase :=
  ⟨⟨[("a/b/c", ⟨[("f", ⟨none, []⟩)], by decide⟩), ("/", .empty),
    ("a", ⟨[("g", ⟨none, []⟩), ("b", ⟨none, []⟩)], by decide⟩), ("a/d", .empty)], by decide⟩⟩

theorem ofCodebase_hierarchy_scattered :
    ∃ item, (ofCodebase scattered).item? 0 = some item ∧
      item.children.map (fun j => ((ofCodebase scattered).item? j).map Item.target) =
        [some (.folder "a/b"), some (.folder "a/d"), some (.function "a" "g"),
          some (.function "a" "b")] ∧
      ((ofCodebase scattered).folder? "").isSome := by
  obtain ⟨_, _, _, _, hchildren, _, hfolder⟩ := ofCodebase_hierarchy scattered
  have ht : ((ofCodebase scattered).item? 0).map Item.target = some (.folder "a") := by
    decide +kernel
  obtain ⟨item, hi, hit⟩ := Option.map_eq_some_iff.mp ht
  refine ⟨item, hi, ?_, (hfolder "").mpr ⟨"/", by decide, Or.inr ⟨"", rfl⟩⟩⟩
  rw [hchildren 0 item hi, hit]
  decide +kernel

end Menu

end CodeAtlas

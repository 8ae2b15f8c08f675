import CodeAtlas.Menu
import CodeAtlas.Proofs.OrderedMap
import CodeAtlas.Proofs.Path

namespace CodeAtlas

namespace Menu

/-- What stays the same about an item once it is there. -/
def Item.face (i : Item) : String × Target × Nat :=
  (i.label, i.target, i.depth)

def faces (m : Menu) : List (String × Target × Nat) :=
  m.items.toList.map Item.face

theorem map_modify_of_eq {α β : Type} (f : α → α) (g : α → β) (h : ∀ a, g (f a) = g a)
    (l : List α) (i : Nat) : (l.modify i f).map g = l.map g := by
  apply List.ext_getElem?
  intro j
  rw [List.getElem?_map, List.getElem?_map, List.getElem?_modify]
  cases l[j]? with
  | none => rfl
  | some a => by_cases hi : i = j <;> simp [hi, h]

@[simp] theorem faces_addRoot (m : Menu) (item : Item) :
    (m.addRoot item).faces = m.faces ++ [item.face] := by
  simp [faces, addRoot]

@[simp] theorem faces_addBelow (m : Menu) (parent : Nat) (item : Item) :
    (m.addBelow parent item).faces = m.faces ++ [item.face] := by
  simp only [faces, addBelow, Array.toList_push, List.map_append, Array.toList_modify]
  congr 1
  apply map_modify_of_eq
  intro _
  rfl

def targets (m : Menu) : List Target :=
  m.items.toList.map Item.target

theorem targets_eq_faces (m : Menu) : m.targets = m.faces.map (·.2.1) := by
  rw [targets, faces, List.map_map]
  rfl

@[simp] theorem targets_addRoot (m : Menu) (item : Item) :
    (m.addRoot item).targets = m.targets ++ [item.target] := by
  rw [targets_eq_faces, faces_addRoot, List.map_append, ← targets_eq_faces]
  rfl

@[simp] theorem targets_addBelow (m : Menu) (parent : Nat) (item : Item) :
    (m.addBelow parent item).targets = m.targets ++ [item.target] := by
  rw [targets_eq_faces, faces_addBelow, List.map_append, ← targets_eq_faces]
  rfl

@[simp] theorem length_targets (m : Menu) : m.targets.length = m.size := by
  simp [targets, size]

theorem getElem?_targets (m : Menu) (i : Nat) : m.targets[i]? = (m.item? i).map Item.target := by
  simp [targets, item?]

def Target.folder? : Target → Option String
  | .folder path => some path
  | .function _ _ => none

@[simp] theorem Target.folder?_eq_some_iff (t : Target) (path : String) :
    t.folder? = some path ↔ t = .folder path := by
  cases t <;> simp [folder?]

/-- The map of the folders agrees with the items: it tells where each folder stands. -/
def Located (m : Menu) : Prop :=
  m.folders.Locates Target.folder? m.targets

theorem located_empty : empty.Located :=
  OrderedMap.locates_empty _

theorem Located.folder?_eq_some_iff (m : Menu) (h : m.Located) (path : String) (id : Nat) :
    m.folder? path = some id ↔ m.targets[id]? = some (.folder path) := by
  rw [folder?, h path id]
  cases m.targets[id]? with
  | none => simp
  | some t => simp

theorem Located.folder?_isSome_iff (m : Menu) (h : m.Located) (path : String) :
    (m.folder? path).isSome = true ↔ .folder path ∈ m.targets := by
  rw [Option.isSome_iff_exists, List.mem_iff_getElem?]
  simp only [h.folder?_eq_some_iff]

theorem Located.notMem_targets (m : Menu) (h : m.Located) (path : String)
    (hp : m.folder? path = none) : .folder path ∉ m.targets := by
  rw [← h.folder?_isSome_iff, hp]
  exact Bool.false_ne_true

theorem Located.enlisted (m : Menu) (h : m.Located) (t : Target) (ht : t.isFolder → t ∉ m.targets) :
    (m.enlisted t).Locates Target.folder? (m.targets ++ [t]) := by
  cases t with
  | folder path =>
    rw [Menu.enlisted, ← length_targets]
    apply h.concat _ path rfl
    rw [← folder?, ← Option.not_isSome_iff_eq_none, h.folder?_isSome_iff]
    exact ht rfl
  | function path name => exact h.concat_of_none _ rfl

theorem Located.addRoot (m : Menu) (h : m.Located) (item : Item)
    (hi : item.target.isFolder → item.target ∉ m.targets) : (m.addRoot item).Located := by
  rw [Located, targets_addRoot]
  exact h.enlisted m item.target hi

theorem Located.addBelow (m : Menu) (h : m.Located) (parent : Nat) (item : Item)
    (hi : item.target.isFolder → item.target ∉ m.targets) : (m.addBelow parent item).Located := by
  rw [Located, targets_addBelow]
  exact h.enlisted m item.target hi

def Target.home? : Target → Option String
  | .folder path => Path.parent? path
  | .function path _ => some path

def Target.level : Target → Nat
  | .folder path => Path.slashes path
  | .function path _ => Path.slashes path + 1

theorem Target.level_of_home? (t : Target) (path : String) (h : t.home? = some path) :
    t.level = Path.slashes path + 1 := by
  cases t with
  | function p name =>
    cases h
    rfl
  | folder p =>
    induction p using Path.induction_on with
    | top r hr =>
      rw [home?, Path.parent?_of_notMem r hr] at h
      cases h
    | below q s hs _ =>
      rw [home?, Path.parent?_join q s hs] at h
      cases h
      exact Path.slashes_join_of_notMem path s hs

theorem Target.level_of_home?_none (t : Target) (h : t.home? = none) : t.level = 0 := by
  cases t with
  | function p name => cases h
  | folder p =>
    induction p using Path.induction_on with
    | top r hr => exact Path.slashes_of_notMem r hr
    | below q s hs _ =>
      rw [home?, Path.parent?_join q s hs] at h
      cases h

/-- Menus that grow item by item, each new item where it belongs and no folder twice. -/
inductive Built : Menu → Prop
  | empty : Built .empty
  | root (m : Menu) (label : String) (t : Target) : Built m → t.home? = none → t ∉ m.targets →
    Built (m.addRoot (.fresh label t t.level))
  | child (m : Menu) (parent : Nat) (path label : String) (t : Target) : Built m →
    m.targets[parent]? = some (.folder path) → t.home? = some path →
    (t.isFolder → t ∉ m.targets) →
    Built (m.addBelow parent (.fresh label t t.level))

@[simp] theorem Item.target_fresh (label : String) (t : Target) (depth : Nat) :
    (Item.fresh label t depth).target = t :=
  rfl

theorem getElem?_concat_of_some {α : Type} (l : List α) (a b : α) (i : Nat)
    (h : l[i]? = some b) : (l ++ [a])[i]? = some b := by
  rw [List.getElem?_append_left (List.getElem?_eq_some_iff.mp h).1, h]

theorem getElem?_targets_addBelow_size (m : Menu) (parent : Nat) (item : Item) :
    (m.addBelow parent item).targets[m.size]? = some item.target := by
  rw [targets_addBelow, ← length_targets, List.getElem?_concat_length]

theorem getElem?_targets_addBelow_of_some (m : Menu) (parent i : Nat) (item : Item) (t : Target)
    (h : m.targets[i]? = some t) : (m.addBelow parent item).targets[i]? = some t := by
  rw [targets_addBelow]
  exact getElem?_concat_of_some _ _ t i h

theorem Built.located (m : Menu) (h : m.Built) : m.Located := by
  induction h with
  | empty => exact located_empty
  | root m label t _ _ hnew ih => exact ih.addRoot m _ fun _ => hnew
  | child m parent path label t _ _ _ hnew ih => exact ih.addBelow m parent _ hnew

theorem Built.depth_eq (m : Menu) (h : m.Built) : ∀ f ∈ m.faces, f.2.2 = f.2.1.level := by
  induction h with
  | empty => simp [faces, Menu.empty]
  | root m label t _ _ _ ih =>
    intro f hf
    rw [faces_addRoot, List.mem_append, List.mem_singleton] at hf
    obtain hf | hf := hf
    · exact ih f hf
    · rw [hf]
      rfl
  | child m parent path label t _ _ _ _ ih =>
    intro f hf
    rw [faces_addBelow, List.mem_append, List.mem_singleton] at hf
    obtain hf | hf := hf
    · exact ih f hf
    · rw [hf]
      rfl

def depthOf (m : Menu) (i : Nat) : Nat :=
  ((m.item? i).map Item.depth).getD 0

theorem Built.depthOf_eq (m : Menu) (h : m.Built) (i : Nat) (t : Target)
    (ht : m.targets[i]? = some t) : m.depthOf i = t.level := by
  rw [getElem?_targets] at ht
  obtain ⟨item, hi, hit⟩ := Option.map_eq_some_iff.mp ht
  have hf : item.face ∈ m.faces :=
    List.mem_map_of_mem (Array.mem_toList_iff.mpr (Array.mem_of_getElem? hi))
  rw [depthOf, hi, ← hit]
  exact h.depth_eq m item.face hf

theorem Built.addFoldersBelow (m : Menu) (h : m.Built) (parent : Nat) (path : String)
    (hp : m.targets[parent]? = some (.folder path)) (ss : List String)
    (hss : ∀ s ∈ ss, '/' ∉ s.toList) :
    (addFoldersBelow parent (Path.slashes path + 1) (Path.trailFrom path ss) m).Built := by
  induction ss generalizing m parent path with
  | nil => exact h
  | cons s ss ih =>
    have hs : '/' ∉ s.toList := hss s List.mem_cons_self
    have hrest : ∀ s ∈ ss, '/' ∉ s.toList := fun u hu => hss u (List.mem_cons_of_mem s hu)
    rw [Path.trailFrom, Menu.addFoldersBelow, ← Path.slashes_join_of_notMem path s hs]
    split
    · next id hf => exact ih m h id _ ((h.located.folder?_eq_some_iff m _ id).mp hf) hrest
    · next hf =>
      apply ih
      · exact .child m parent path s _ h hp (Path.parent?_join path s hs)
          fun _ => h.located.notMem_targets m _ hf
      · exact getElem?_targets_addBelow_size m parent _
      · exact hrest

theorem Built.addPath (m : Menu) (h : m.Built) (path : String) : (m.addPath path).Built := by
  have hsegments := Path.slash_notMem_segments path
  rw [Menu.addPath, Path.trail]
  cases hp : Path.segments path with
  | nil => exact h
  | cons s ss =>
    rw [hp] at hsegments
    have hs : '/' ∉ s.toList := hsegments s List.mem_cons_self
    have hrest : ∀ u ∈ ss, '/' ∉ u.toList := fun u hu => hsegments u (List.mem_cons_of_mem s hu)
    dsimp only
    rw [← Nat.zero_add 1, ← Path.slashes_of_notMem s hs]
    split
    · next id hf =>
      exact Built.addFoldersBelow m h id s ((h.located.folder?_eq_some_iff m s id).mp hf) ss hrest
    · next hf =>
      apply Built.addFoldersBelow _ _ m.size s _ ss hrest
      · exact .root m s _ h (Path.parent?_of_notMem s hs) (h.located.notMem_targets m s hf)
      · rw [targets_addRoot, ← length_targets, List.getElem?_concat_length]
        rfl

theorem Built.addNames (path : String) (parent : Nat) (names : List String) (m : Menu)
    (h : m.Built) (hp : m.targets[parent]? = some (.folder path)) :
    (names.foldl (fun m name =>
      m.addBelow parent (.fresh name (.function path name) (Path.slashes path + 1))) m).Built := by
  induction names generalizing m with
  | nil => exact h
  | cons name names ih =>
    rw [List.foldl_cons]
    apply ih
    · exact .child m parent path name _ h hp rfl fun hf => absurd hf Bool.false_ne_true
    · exact getElem?_targets_addBelow_of_some m parent parent _ _ hp

theorem Built.addFunctions (m : Menu) (h : m.Built) (path : String) (folder : Folder) :
    (m.addFunctions path folder).Built := by
  rw [Menu.addFunctions]
  split
  · exact h
  · next parent hf =>
    have hp := (h.located.folder?_eq_some_iff m path parent).mp hf
    have hd : ((m.item? parent).map Item.depth).getD 0 = Path.slashes path :=
      h.depthOf_eq m parent _ hp
    rw [hd]
    exact Built.addNames path parent folder.keys m h hp

theorem built_foldl_addPath (paths : List String) : (paths.foldl addPath empty).Built := by
  apply List.foldlRecOn (motive := Built)
  · exact .empty
  · intro m hm path _
    exact hm.addPath m path

theorem built_ofCodebase (c : Codebase) : (ofCodebase c).Built := by
  rw [ofCodebase]
  apply List.foldlRecOn (motive := Built)
  · exact built_foldl_addPath c.folders.keys
  · intro m hm e _
    exact hm.addFunctions m e.1 e.2

/-- No folder comes twice, and the folder in which an item belongs comes before it. -/
structure Housed (ts : List Target) : Prop where
  unique : ∀ (i j : Nat) (path : String), ts[i]? = some (.folder path) →
    ts[j]? = some (.folder path) → i = j
  above : ∀ (i : Nat) (t : Target) (path : String), ts[i]? = some t → t.home? = some path →
    ∃ p < i, ts[p]? = some (.folder path)

theorem getElem?_concat_cases {α : Type} (l : List α) (a b : α) (i : Nat)
    (h : (l ++ [a])[i]? = some b) : l[i]? = some b ∨ i = l.length ∧ a = b := by
  have hlt := (List.getElem?_eq_some_iff.mp h).1
  rw [List.length_append, List.length_singleton] at hlt
  by_cases hi : i = l.length
  · rw [hi, List.getElem?_concat_length] at h
    exact Or.inr ⟨hi, Option.some.inj h⟩
  · rw [List.getElem?_append_left (by omega)] at h
    exact Or.inl h

theorem Built.above (m : Menu) (h : m.Built) (i : Nat) (t : Target) (path : String)
    (hi : m.targets[i]? = some t) (ht : t.home? = some path) :
    ∃ p < i, m.targets[p]? = some (.folder path) := by
  induction h generalizing i t with
  | empty => cases hi
  | root m label u _ hu _ ih =>
    rw [targets_addRoot] at hi ⊢
    obtain hi | ⟨_, rfl⟩ := getElem?_concat_cases _ _ _ i hi
    · obtain ⟨p, hp, hf⟩ := ih i t hi ht
      exact ⟨p, hp, getElem?_concat_of_some _ _ _ p hf⟩
    · cases hu.symm.trans ht
  | child m parent q label u _ hq hu _ ih =>
    rw [targets_addBelow] at hi ⊢
    obtain hi | ⟨rfl, rfl⟩ := getElem?_concat_cases _ _ _ i hi
    · obtain ⟨p, hp, hf⟩ := ih i t hi ht
      exact ⟨p, hp, getElem?_concat_of_some _ _ _ p hf⟩
    · cases hu.symm.trans ht
      exact ⟨parent, (List.getElem?_eq_some_iff.mp hq).1, getElem?_concat_of_some _ _ _ parent hq⟩

theorem Built.housed (m : Menu) (h : m.Built) : Housed m.targets where
  unique i j path hi hj := by
    apply h.located.unique i j path
    · rw [hi]
      rfl
    · rw [hj]
      rfl
  above := h.above

def places (ts : List Target) (home : Option String) : List Nat :=
  ts.findIdxs (·.home? == home)

def inside (ts : List Target) (i : Nat) : List Nat :=
  match ts[i]? with
  | some (.folder path) => places ts (some path)
  | _ => []

theorem mem_places (ts : List Target) (home : Option String) (i : Nat) :
    i ∈ places ts home ↔ ∃ t, ts[i]? = some t ∧ t.home? = home := by
  rw [places, List.mem_findIdxs_iff_exists_getElem_pos]
  constructor
  · intro ⟨hi, h⟩
    exact ⟨ts[i], List.getElem?_eq_getElem hi, beq_iff_eq.mp h⟩
  · intro ⟨t, ht, h⟩
    obtain ⟨hi, he⟩ := List.getElem?_eq_some_iff.mp ht
    exact ⟨hi, by rw [he, h, beq_self_eq_true]⟩

theorem places_concat (ts : List Target) (t : Target) (home : Option String) :
    places (ts ++ [t]) home =
      if t.home? = home then places ts home ++ [ts.length] else places ts home := by
  rw [places, List.findIdxs_append, List.findIdxs_singleton, Nat.zero_add]
  by_cases h : t.home? = home
  · simp [h, places]
  · simp [h, places]

theorem mem_inside (ts : List Target) (p i : Nat) :
    i ∈ inside ts p ↔
      ∃ path t, ts[p]? = some (.folder path) ∧ ts[i]? = some t ∧ t.home? = some path := by
  rw [inside]
  split
  · next path hp =>
    rw [mem_places]
    constructor
    · intro ⟨t, ht, h⟩
      exact ⟨path, t, hp, ht, h⟩
    · intro ⟨q, t, hq, ht, h⟩
      cases hp.symm.trans hq
      exact ⟨t, ht, h⟩
  · next hne =>
    refine ⟨fun h => absurd h List.not_mem_nil, ?_⟩
    intro ⟨path, _, hp, _⟩
    exact absurd hp (hne path)

theorem Housed.places_last (ts : List Target) (path : String)
    (h : Housed (ts ++ [.folder path])) : places (ts ++ [.folder path]) (some path) = [] := by
  rw [List.eq_nil_iff_forall_not_mem]
  intro i hi
  obtain ⟨t, ht, hhome⟩ := (mem_places _ _ i).mp hi
  obtain ⟨p, hp, hf⟩ := h.above i t path ht hhome
  have hlast := h.unique p ts.length path hf List.getElem?_concat_length
  have hlt := (List.getElem?_eq_some_iff.mp ht).1
  rw [List.length_append, List.length_singleton] at hlt
  omega

theorem Housed.inside_concat (ts : List Target) (t : Target) (h : Housed (ts ++ [t])) (i : Nat) :
    inside (ts ++ [t]) i =
      if t.home?.map Target.folder = ts[i]? ∧ i < ts.length then inside ts i ++ [ts.length]
      else inside ts i := by
  by_cases hi : i < ts.length
  · simp only [inside, List.getElem?_append_left hi, hi, and_true]
    rw [List.getElem?_eq_getElem hi]
    cases ts[i] with
    | folder path =>
      dsimp only
      rw [places_concat]
      cases t.home? with
      | none => simp
      | some q => simp
    | function path name => cases t.home? <;> simp
  · have hno : ts[i]? = none := List.getElem?_eq_none (by omega)
    rw [if_neg (fun hc => hi hc.2)]
    simp only [inside, hno]
    by_cases hl : i = ts.length
    · rw [hl, List.getElem?_concat_length]
      cases t with
      | folder path => exact h.places_last ts path
      | function path name => rfl
    · rw [List.getElem?_eq_none (by rw [List.length_append, List.length_singleton]; omega)]

theorem item?_addRoot (m : Menu) (item : Item) (i : Nat) :
    (m.addRoot item).item? i = if i = m.size then some item else m.item? i := by
  rw [item?, addRoot, Array.getElem?_push]
  rfl

theorem item?_addBelow (m : Menu) (parent : Nat) (item : Item) (i : Nat) :
    (m.addBelow parent item).item? i =
      if i = m.size then some item
      else if parent = i then
        (m.item? i).map fun p => { p with children := p.children ++ [m.size] }
      else m.item? i := by
  rw [item?, addBelow, Array.getElem?_push, Array.size_modify, Array.getElem?_modify]
  rfl

@[simp] theorem item?_size (m : Menu) : m.item? m.size = none :=
  Array.getElem?_eq_none (Nat.le_refl m.items.size)

@[simp] theorem childrenOf_size (m : Menu) : m.childrenOf m.size = [] := by
  rw [childrenOf, item?_size]
  rfl

theorem childrenOf_addRoot (m : Menu) (item : Item) (hitem : item.children = []) (i : Nat) :
    (m.addRoot item).childrenOf i = m.childrenOf i := by
  by_cases hi : i = m.size
  · rw [hi, childrenOf_size, childrenOf, item?_addRoot, if_pos rfl, Option.map_some, hitem]
    rfl
  · rw [childrenOf, item?_addRoot, if_neg hi, childrenOf]

theorem childrenOf_addBelow (m : Menu) (parent : Nat) (item : Item) (hitem : item.children = [])
    (hp : parent < m.size) (i : Nat) :
    (m.addBelow parent item).childrenOf i =
      if i = parent then m.childrenOf i ++ [m.size] else m.childrenOf i := by
  by_cases hi : i = m.size
  · have hne : i ≠ parent := by omega
    rw [if_neg hne, hi, childrenOf_size, childrenOf, item?_addBelow, if_pos rfl, Option.map_some,
      hitem]
    rfl
  · by_cases he : i = parent
    · subst he
      rw [childrenOf, item?_addBelow, if_neg hi, if_pos rfl, if_pos rfl, childrenOf, item?,
        Array.getElem?_eq_getElem hp]
      rfl
    · rw [childrenOf, item?_addBelow, if_neg hi, if_neg (Ne.symm he), if_neg he, childrenOf]

theorem Built.childrenOf_eq (m : Menu) (h : m.Built) (i : Nat) :
    m.childrenOf i = inside m.targets i := by
  induction h generalizing i with
  | empty => rfl
  | root m label t hm ht hnew ih =>
    have hh := (Built.root m label t hm ht hnew).housed
    rw [targets_addRoot, Item.target_fresh] at hh ⊢
    rw [childrenOf_addRoot m _ rfl, ih, hh.inside_concat, if_neg]
    intro ⟨he, hi⟩
    rw [ht, List.getElem?_eq_getElem hi] at he
    cases he
  | child m parent path label t hm hp ht hnew ih =>
    have hh := (Built.child m parent path label t hm hp ht hnew).housed
    have hlt : parent < m.targets.length := (List.getElem?_eq_some_iff.mp hp).1
    -- the new item belongs in one folder, which stands at one place
    have hplace : (t.home?.map Target.folder = m.targets[i]? ∧ i < m.targets.length) ↔
        i = parent := by
      rw [ht, Option.map_some]
      constructor
      · intro ⟨he, _⟩
        exact hm.housed.unique i parent path he.symm hp
      · intro he
        subst he
        exact ⟨hp.symm, hlt⟩
    rw [targets_addBelow, Item.target_fresh] at hh ⊢
    rw [hh.inside_concat, childrenOf_addBelow m parent _ rfl (length_targets m ▸ hlt), ih]
    simp only [hplace]
    rw [length_targets]

theorem Built.roots_eq (m : Menu) (h : m.Built) : m.roots = places m.targets none := by
  induction h with
  | empty => rfl
  | root m label t _ ht _ ih =>
    rw [targets_addRoot, Item.target_fresh, places_concat, if_pos ht, addRoot, ih, length_targets]
  | child m parent path label t _ _ ht _ ih =>
    have hne : t.home? ≠ none := by
      rw [ht]
      exact Option.some_ne_none path
    rw [targets_addBelow, Item.target_fresh, places_concat, if_neg hne, addBelow, ih]

theorem Built.flags_eq (m : Menu) (h : m.Built) (i : Nat) (item : Item)
    (hi : m.item? i = some item) : item.expanded = false ∧ item.visible = true := by
  induction h generalizing i item with
  | empty => cases hi
  | root m label t _ _ _ ih =>
    rw [item?_addRoot] at hi
    split at hi
    · cases hi
      exact ⟨rfl, rfl⟩
    · exact ih i item hi
  | child m parent path label t _ _ _ _ ih =>
    rw [item?_addBelow] at hi
    split at hi
    · cases hi
      exact ⟨rfl, rfl⟩
    · split at hi
      · obtain ⟨old, hold, he⟩ := Option.map_eq_some_iff.mp hi
        subst he
        exact ih i old hold
      · exact ih i item hi

end Menu

end CodeAtlas

import CodeAtlas.Proofs.Graph.Forest
import CodeAtlas.Proofs.Menu.Growth

namespace CodeAtlas

namespace Path

theorem trail_eq_cons (path : String) :
    ∃ rest, trail path = (root path, root path) :: rest ∧ ∀ e ∈ rest, '/' ∈ e.1.toList := by
  induction path using induction_on with
  | top r hr => exact ⟨[], by rw [trail_of_notMem r hr, root_of_notMem r hr], by simp⟩
  | below p s hs ih =>
    obtain ⟨rest, ht, hr⟩ := ih
    refine ⟨rest ++ [(join p s, s)], ?_, ?_⟩
    · rw [trail_join p s hs, ht, root_join, List.cons_append]
    · intro e he
      rcases List.mem_append.mp he with he | he
      · exact hr e he
      · rw [List.mem_singleton.mp he]
        exact slash_mem_join p s

end Path

namespace Menu

/-- The roots of the menu are `rs`, in this order, and no other folder stands at the top. -/
structure Rooted (m : Menu) (rs : List String) : Prop where
  labels : m.roots.map (fun id => m.faces[id]?.map (·.1)) = rs.map some
  folders : ∀ r, '/' ∉ r.toList → ((∃ f ∈ m.faces, f.2.1 = .folder r) ↔ r ∈ rs)

theorem Rooted.getElem?_append (m : Menu) (rs : List String) (h : m.Rooted rs)
    (more : List (String × Target × Nat)) :
    m.roots.map (fun id => (m.faces ++ more)[id]?.map (·.1)) = rs.map some := by
  rw [← h.labels]
  apply List.map_congr_left
  intro id hid
  have hs : m.faces[id]?.map (·.1) ∈ rs.map some := h.labels ▸ List.mem_map_of_mem hid
  have hlt : id < m.faces.length := by
    by_contra hge
    rw [List.getElem?_eq_none (by omega)] at hs
    simp at hs
  rw [List.getElem?_append_left hlt]

theorem Rooted.addBelow (m : Menu) (rs : List String) (h : m.Rooted rs) (parent : Nat)
    (item : Item) (hi : ∀ r, '/' ∉ r.toList → item.target ≠ .folder r) :
    (m.addBelow parent item).Rooted rs where
  labels := by
    rw [faces_addBelow]
    exact h.getElem?_append m rs _
  folders r hr := by
    rw [← h.folders r hr, faces_addBelow]
    simp [Item.face, hi r hr]

theorem Rooted.addRoot (m : Menu) (rs : List String) (h : m.Rooted rs) (r : String) (depth : Nat)
    (hr : r ∉ rs) : (m.addRoot (.fresh r (.folder r) depth)).Rooted (rs ++ [r]) where
  labels := by
    have hl : m.faces.length = m.size := by simp [faces, size]
    rw [faces_addRoot, Menu.addRoot, List.map_append, h.getElem?_append m rs, List.map_singleton,
      ← hl, List.getElem?_concat_length, List.map_append]
    rfl
  folders q hq := by
    rw [faces_addRoot, List.mem_append, ← h.folders q hq]
    simp only [List.mem_append, List.mem_singleton]
    constructor
    · rintro ⟨f, hf | rfl, he⟩
      · exact Or.inl ⟨f, hf, he⟩
      · exact Or.inr (by simpa [Item.face, Item.fresh, eq_comm] using he)
    · rintro (⟨f, hf, he⟩ | rfl)
      · exact ⟨f, Or.inl hf, he⟩
      · exact ⟨_, Or.inr rfl, rfl⟩

theorem Rooted.addFoldersBelow (rs : List String) (trail : List (String × String))
    (ht : ∀ e ∈ trail, '/' ∈ e.1.toList) (m : Menu) (h : m.Rooted rs) (parent depth : Nat) :
    (addFoldersBelow parent depth trail m).Rooted rs := by
  induction trail generalizing m parent depth with
  | nil => exact h
  | cons e trail ih =>
    have hrest : ∀ e ∈ trail, '/' ∈ e.1.toList := fun e he => ht e (List.mem_cons_of_mem _ he)
    rw [Menu.addFoldersBelow]
    split
    · exact ih hrest m h _ _
    · apply ih hrest
      apply h.addBelow
      intro r hr he
      have hp : e.1 = r := by simpa [Item.fresh] using he
      exact hr (hp ▸ ht e List.mem_cons_self)

theorem Rooted.addPath (m : Menu) (hm : m.Located) (rs : List String) (h : m.Rooted rs)
    (path : String) :
    (m.addPath path).Rooted
      (if Path.root path ∈ rs then rs else rs ++ [Path.root path]) := by
  obtain ⟨rest, ht, hrest⟩ := Path.trail_eq_cons path
  have hfound := hm.folder?_isSome_iff m (Path.root path)
  rw [targets_eq_faces, List.mem_map, h.folders _ (Path.slash_notMem_root path)] at hfound
  cases hf : m.folder? (Path.root path) with
  | some id =>
    have hr : Path.root path ∈ rs := hfound.mp (by rw [hf]; rfl)
    simp only [Menu.addPath, ht, hf, if_pos hr]
    exact Rooted.addFoldersBelow rs rest hrest m h id 1
  | none =>
    have hn : Path.root path ∉ rs := fun hr => by simpa [hf] using hfound.mpr hr
    simp only [Menu.addPath, ht, hf, if_neg hn]
    exact Rooted.addFoldersBelow _ rest hrest _ (h.addRoot m rs _ 0 hn) m.size 1

theorem Rooted.addNames (rs : List String) (path : String) (parent depth : Nat)
    (names : List String) (m : Menu) (h : m.Rooted rs) :
    (names.foldl (fun m name =>
      m.addBelow parent (.fresh name (.function path name) depth)) m).Rooted rs := by
  induction names generalizing m with
  | nil => exact h
  | cons name names ih =>
    rw [List.foldl_cons]
    apply ih
    apply h.addBelow
    intro r _ he
    cases he

theorem Rooted.addFunctions (m : Menu) (rs : List String) (h : m.Rooted rs) (path : String)
    (folder : Folder) : (m.addFunctions path folder).Rooted rs := by
  rw [Menu.addFunctions]
  split
  · exact h
  · exact Rooted.addNames rs path _ _ folder.keys m h

theorem rooted_ofCodebase (c : Codebase) : (ofCodebase c).Rooted c.roots := by
  have hfolders : ∀ paths : List String, (paths.foldl addPath empty).Rooted
      (firstOccurrences (paths.map Path.root)) := by
    intro paths
    induction paths using List.reverseRecOn with
    | nil => exact ⟨rfl, fun r _ => by simp [faces, empty, firstOccurrences]⟩
    | append_singleton paths path ih =>
      rw [List.foldl_append, List.map_append, List.map_singleton, firstOccurrences_concat]
      exact ih.addPath _ (built_foldl_addPath paths).located _ path
  -- functions come after all folders, and no function stands at the top
  rw [ofCodebase]
  have h := hfolders c.folders.keys
  generalize c.folders.keys.foldl addPath empty = m at h ⊢
  induction c.folders.entries generalizing m with
  | nil => exact h
  | cons e rest ih =>
    rw [List.foldl_cons]
    exact ih _ (h.addFunctions m _ e.1 e.2)

theorem labels_roots_ofCodebase (c : Codebase) :
    (ofCodebase c).roots.map (fun id => ((ofCodebase c).item? id).map Item.label) =
      c.roots.map some := by
  rw [← (rooted_ofCodebase c).labels]
  apply List.map_congr_left
  intro id _
  simp [faces, item?, Item.face, Function.comp_def]

end Menu

namespace Graph

theorem filter_unparented (c : Codebase) :
    ((ofCodebase c).nodes.toList.filter
      (fun n => !(ofCodebase c).edges.any (·.target == n.id))).map Node.id = c.roots := by
  rw [← filter_ids_ofCodebase, ids, List.filter_map]
  congr 1
  apply List.filter_congr
  intro n hn
  have hid : n.id ∈ (ofCodebase c).ids := List.mem_map_of_mem hn
  rw [Function.comp_apply, Bool.eq_iff_iff, Bool.not_eq_true', decide_eq_true_iff,
    Bool.eq_false_iff, ne_eq, Array.any_eq_true', not_iff_not]
  constructor
  · rintro ⟨e, he, ht⟩
    rw [← beq_iff_eq.mp ht]
    exact slash_mem_of_isParent c e.source e.target he
  · intro hs
    obtain ⟨p, hp⟩ := exists_isParent c n.id hid hs
    exact ⟨_, hp, beq_self_eq_true n.id⟩

/-- Edges lead from a path to a longer one, so there is no way back. The folders that start a path
are the nodes that no edge leads to, the roots of the codebase and the roots of the menu, always in
the same order, and every node is below one of them. -/
theorem ofCodebase_below_roots (c : Codebase) :
    (∀ e ∈ (ofCodebase c).edges, ∃ s, e.target = Path.join e.source s) ∧
      (∀ id, ¬ Relation.TransGen (ofCodebase c).IsParent id id) ∧
      ((ofCodebase c).nodes.toList.filter
        (fun n => !(ofCodebase c).edges.any (·.target == n.id))).map Node.id = c.roots ∧
      (Menu.ofCodebase c).roots.map
        (fun id => ((Menu.ofCodebase c).item? id).map Menu.Item.label) = c.roots.map some ∧
      ∀ n ∈ (ofCodebase c).nodes, ∃ r ∈ c.roots,
        Relation.ReflTransGen (ofCodebase c).IsParent r n.id := by
  refine ⟨fun e he => IsParent.eq_join c _ _ he, fun id h => ?_, filter_unparented c,
    Menu.labels_roots_ofCodebase c, fun n hn => ?_⟩
  · exact Nat.lt_irrefl _ (slashes_lt_of_transGen c id id h)
  · exact exists_root_reaching c n.id (List.mem_map_of_mem (Array.mem_toList_iff.mpr hn))

/-- Empty segments, a function whose name has a slash, and a folder with that function's id. -/
def slashed : Codebase :=
  ⟨⟨[("/a", ⟨[("x/y", ⟨none, []⟩)], by decide⟩), ("", .empty), ("/a/x/y", .empty)], by decide⟩⟩

theorem ofCodebase_below_roots_slashed :
    (⟨"/a", "/a/x/y"⟩ : Edge) ∈ (ofCodebase slashed).edges ∧
      (∃ s, "/a/x/y" = Path.join "/a" s) ∧
      ∃ n ∈ (ofCodebase slashed).nodes, n.id = "/a/x/y" ∧
        ∃ r ∈ slashed.roots, Relation.ReflTransGen (ofCodebase slashed).IsParent r n.id := by
  have he : (ofCodebase slashed).IsParent "/a" "/a/x/y" :=
    (isParent_ofCodebase slashed _ _).mpr
      (Or.inr ⟨_, List.mem_cons_self, "x/y", List.mem_cons_self, rfl, by decide⟩)
  obtain ⟨n, hn, hid⟩ := List.mem_map.mp he.mem_ids.2
  have hn' : n ∈ (ofCodebase slashed).nodes := Array.mem_toList_iff.mp hn
  have h := ofCodebase_below_roots slashed
  exact ⟨he, h.1 _ he, n, hn', hid, h.2.2.2.2 n hn'⟩

end Graph

end CodeAtlas

import Mathlib.Data.Finset.Card
import Mathlib.Data.List.ProdSigma
import CodeAtlas.Codebase.Sample
import CodeAtlas.Proofs.CallTable.Merging
import CodeAtlas.Proofs.CallTable.Reachable
import CodeAtlas.Proofs.Codebase.Insertions
import CodeAtlas.Proofs.Graph.Forest

namespace CodeAtlas

namespace Graph

structure OwnIds (c : Codebase) : Prop where
  unique : ∀ p ∈ c.pairs, ∀ q ∈ c.pairs, Path.join p.1 p.2 = Path.join q.1 q.2 → p = q
  free : ∀ p ∈ c.pairs, ∀ path ∈ c.folders.keys, ¬ Path.AtOrAbove (Path.join p.1 p.2) path

theorem mem_nodeSequence_iff (c : Codebase) (n : Node) :
    n ∈ nodeSequence c ↔ (∃ path ∈ c.folders.keys, n ∈ folderNodes path) ∨
      ∃ p ∈ c.pairs, n = .ofFunction p.1 p.2 (Path.segments p.1).length := by
  simp only [nodeSequence, List.mem_flatMap, List.mem_append]
  constructor
  · rintro ⟨e, he, h | h⟩
    · exact Or.inl ⟨e.1, List.mem_map_of_mem he, h⟩
    · obtain ⟨name, hname, rfl⟩ := List.mem_map.mp h
      exact Or.inr ⟨(e.1, name), List.mem_flatMap.mpr ⟨e, he, List.mem_map_of_mem hname⟩, rfl⟩
  · rintro (⟨path, hpath, h⟩ | ⟨p, hp, rfl⟩)
    · obtain ⟨e, he, rfl⟩ := List.mem_map.mp hpath
      exact ⟨e, he, Or.inl h⟩
    · obtain ⟨e, he, h⟩ := List.mem_flatMap.mp hp
      obtain ⟨name, hname, rfl⟩ := List.mem_map.mp h
      exact ⟨e, he, Or.inr (List.mem_map_of_mem hname)⟩

theorem OwnIds.node?_eq (c : Codebase) (h : OwnIds c) (p : String × String) (hp : p ∈ c.pairs) :
    (ofCodebase c).node? (Path.join p.1 p.2) =
      some (.ofFunction p.1 p.2 (Path.segments p.1).length) := by
  have hmem : Node.ofFunction p.1 p.2 (Path.segments p.1).length ∈ nodeSequence c :=
    (mem_nodeSequence_iff c _).mpr (Or.inr ⟨p, hp, rfl⟩)
  rw [node?_ofCodebase]
  cases hn : (nodeSequence c).find? (·.id == Path.join p.1 p.2) with
  | none => exact absurd (List.find?_eq_none.mp hn _ hmem) (by simp [Node.ofFunction])
  | some n =>
    have hid : n.id = Path.join p.1 p.2 := by simpa using List.find?_some hn
    obtain ⟨path, hpath, hfolder⟩ | ⟨q, hq, rfl⟩ :=
      (mem_nodeSequence_iff c n).mp (List.mem_of_find?_eq_some hn)
    · have hstem : n.id ∈ Path.stems path := by
        rw [← ids_folderNodes]
        exact List.mem_map_of_mem hfolder
      rw [hid, Path.mem_stems_iff] at hstem
      exact absurd hstem (h.free p hp path hpath)
    · rw [h.unique q hq p hp hid]

theorem OwnIds.functionCount_eq (c : Codebase) (h : OwnIds c) :
    (ofCodebase c).functionCount = c.functionCount := by
  have hcount : (ofCodebase c).functionCount =
      (((ofCodebase c).nodes.toList.filter (·.kind == .function)).map Node.id).length := by
    rw [List.length_map, ← List.countP_eq_length_filter, functionCount, Array.countP_toList]
  have hids : (((ofCodebase c).nodes.toList.filter (·.kind == .function)).map Node.id).Nodup :=
    (nodup_ids_ofCodebase c).sublist (List.filter_sublist.map Node.id)
  have hpairs : (c.pairs.map fun p => Path.join p.1 p.2).Nodup :=
    List.Nodup.map_on h.unique c.nodup_pairs
  have hlength : (c.pairs.map fun p => Path.join p.1 p.2).length = c.functionCount := by
    rw [List.length_map, c.length_pairs]
  rw [hcount, ← hlength]
  apply List.Perm.length_eq
  rw [List.perm_ext_iff_of_nodup hids hpairs]
  intro id
  simp only [List.mem_map, List.mem_filter, beq_iff_eq]
  constructor
  · rintro ⟨n, ⟨hn, hk⟩, rfl⟩
    obtain ⟨folder, info, _, hid, hinfo⟩ :=
      function?_of_mem_nodes c n (Array.mem_toList_iff.mp hn) hk
    exact ⟨(folder, n.name), (c.mem_pairs_iff _ _).mpr ⟨info, hinfo⟩, hid⟩
  · rintro ⟨p, hp, rfl⟩
    have hnode := h.node?_eq c p hp
    rw [(indexed_ofCodebase c).node?_eq_find?] at hnode
    exact ⟨_, ⟨List.mem_of_find?_eq_some hnode, rfl⟩, rfl⟩

end Graph

namespace Codebase

@[simp] theorem map_snd_pairs (c : Codebase) : c.pairs.map Prod.snd = c.functionNames := by
  simp only [pairs, functionNames, OrderedMap.values, List.map_flatMap, List.flatMap_map,
    List.map_map, Function.comp_def, List.map_id']

theorem callsOf_eq (c : Codebase) (f name : String) (info : FunctionInfo)
    (hinfo : c.function? f name = some info) (honly : ∀ f', (f', name) ∈ c.pairs → f' = f) :
    c.callsOf name = info.calls := by
  have hentry : ∀ e ∈ c.folders.entries, ((e.2.get? name).map FunctionInfo.calls).getD [] =
      if e.1 = f then ((e.2.get? name).map FunctionInfo.calls).getD [] else [] := by
    intro e he
    by_cases hf : e.1 = f
    · rw [if_pos hf]
    · rw [if_neg hf]
      cases hget : e.2.get? name with
      | none => rfl
      | some other =>
        have hother : c.function? e.1 name = some other := by
          rw [function?, folder?, (OrderedMap.mem_entries_iff _ _ _).mp he]
          exact hget
        exact absurd (honly e.1 ((c.mem_pairs_iff _ _).mpr ⟨other, hother⟩)) hf
  rw [callsOf, OrderedMap.values, List.flatMap_map, List.flatMap_congr hentry,
    c.folders.flatMap_entries_ite f fun folder => ((folder.get? name).map FunctionInfo.calls).getD []]
  obtain ⟨folder, hfolder, hget⟩ := Option.bind_eq_some_iff.mp hinfo
  rw [folder?] at hfolder
  rw [hfolder, Option.map_some, hget]
  rfl

namespace Sample

theorem not_digit_notMem (c : Char) (hc : c.isDigit = false) (n : Nat) : c ∉ Nat.toDigits 10 n := by
  intro h
  have hd := Nat.isDigit_of_mem_toDigits (by decide) (by decide) h
  rw [hc] at hd
  cases hd

theorem toDigits_inj (m n : Nat) (h : Nat.toDigits 10 m = Nat.toDigits 10 n) : m = n := by
  rw [← Nat.ofDigitChars_ten_toDigits (n := m), h, Nat.ofDigitChars_ten_toDigits]

theorem toList_functionName (i j : Nat) :
    (functionName i j).toList =
      'f' :: 'n' :: '_' :: (Nat.toDigits 10 i ++ '_' :: Nat.toDigits 10 j) := by
  simp [functionName, toString]

theorem slash_notMem_functionName (i j : Nat) : '/' ∉ (functionName i j).toList := by
  rw [toList_functionName]
  simp [not_digit_notMem '/' rfl]

theorem functionName_inj (i j i' j' : Nat) (h : functionName i j = functionName i' j') :
    i = i' ∧ j = j' := by
  have hlist := congrArg String.toList h
  rw [toList_functionName, toList_functionName] at hlist
  simp only [List.cons.injEq, true_and] at hlist
  obtain ⟨hi, _, hj⟩ := (List.append_cons_inj_of_notMem (not_digit_notMem '_' rfl i)
    (not_digit_notMem '_' rfl j)).mp hlist
  exact ⟨toDigits_inj i i' hi, toDigits_inj j j' hj⟩

def numbered (word : String) (n : Nat) : String :=
  word ++ toString n

theorem folderPath_cases (m : Nat) :
    folderPath m = numbered "pkg_" (m / 9) ∨
      folderPath m = Path.join (numbered "pkg_" (m / 9)) (numbered "mod_" (m / 3)) ∨
      folderPath m = Path.join (Path.join (numbered "pkg_" (m / 9)) (numbered "mod_" (m / 3)))
        (numbered "leaf_" m) := by
  rw [folderPath]
  split
  · exact Or.inl rfl
  · exact Or.inr (Or.inl rfl)
  · exact Or.inr (Or.inr rfl)

theorem slash_notMem_numbered (word : String) (hw : '/' ∉ word.toList) (n : Nat) :
    '/' ∉ (numbered word n).toList := by
  simp [numbered, hw, not_digit_notMem '/' rfl]

/-- Functions and the folders below the top have names with different first letters. -/
theorem functionName_ne_numbered (word : String) (n i j : Nat)
    (hw : ∃ c cs, word.toList = c :: cs ∧ c ≠ 'f') : functionName i j ≠ numbered word n := by
  obtain ⟨c, cs, hword, hc⟩ := hw
  intro h
  have hlist := congrArg String.toList h
  rw [toList_functionName, numbered, String.toList_append, hword, List.cons_append] at hlist
  exact hc (List.cons.inj hlist).1.symm

theorem not_atOrAbove_folderPath (path : String) (i j m : Nat) :
    ¬ Path.AtOrAbove (Path.join path (functionName i j)) (folderPath m) := by
  have houter : '/' ∉ (numbered "pkg_" (m / 9)).toList := slash_notMem_numbered _ (by decide) _
  have hinner : '/' ∉ (numbered "mod_" (m / 3)).toList := slash_notMem_numbered _ (by decide) _
  have hleaf : '/' ∉ (numbered "leaf_" m).toList := slash_notMem_numbered _ (by decide) _
  have htop : ¬ Path.AtOrAbove (Path.join path (functionName i j)) (numbered "pkg_" (m / 9)) := by
    rw [Path.atOrAbove_of_notMem _ _ houter]
    intro h
    rw [← h] at houter
    exact houter (Path.slash_mem_join path _)
  have hbelow : ∀ folder word n, '/' ∉ (numbered word n).toList →
      (∃ c cs, word.toList = c :: cs ∧ c ≠ 'f') →
      ¬ Path.AtOrAbove (Path.join path (functionName i j)) folder →
      ¬ Path.AtOrAbove (Path.join path (functionName i j)) (Path.join folder (numbered word n)) := by
    intro folder word n hs hw hfolder
    rw [Path.atOrAbove_join _ _ _ hs]
    rintro (h | h)
    · exact hfolder h
    · exact functionName_ne_numbered word n i j hw
        (Path.join_inj _ _ _ _ (slash_notMem_functionName i j) hs h).2
  have hmiddle := hbelow _ "mod_" (m / 3) hinner ⟨'m', _, rfl, by decide⟩ htop
  obtain h | h | h := folderPath_cases m
  · rwa [h]
  · rwa [h]
  · rw [h]
    exact hbelow _ "leaf_" m hleaf ⟨'l', _, rfl, by decide⟩ hmiddle

def insertions (folders functions : Nat) : List Insertion :=
  (List.range folders).flatMap fun i => .folder (folderPath i) ::
    (List.range functions).map fun j => .function (folderPath i) (functionName i j) (function i j)

theorem codebase_eq_inserted (n k : Nat) : codebase n k = inserted (insertions n k) := by
  rw [inserted, insertions, List.foldl_flatMap, codebase]
  congr 1
  funext c i
  rw [List.foldl_cons, List.foldl_map]
  rfl

def pairAt (p : Nat × Nat) : String × String :=
  (folderPath p.1, functionName p.1 p.2)

theorem pairAt_inj (p q : Nat × Nat) (h : (pairAt p).2 = (pairAt q).2) : p = q := by
  obtain ⟨h₁, h₂⟩ := functionName_inj _ _ _ _ h
  exact Prod.ext h₁ h₂

theorem filterMap_pair?_insertions (n k : Nat) :
    (insertions n k).filterMap Insertion.pair? =
      (List.range n ×ˢ List.range k).map pairAt := by
  change _ = ((List.range n).flatMap fun i => (List.range k).map (Prod.mk i)).map pairAt
  rw [insertions, List.filterMap_flatMap, List.map_flatMap]
  apply List.flatMap_congr
  intro i _
  rw [List.filterMap_cons_none rfl, List.filterMap_map, List.map_map]
  exact congrFun List.filterMap_eq_map' _

theorem functionCount_codebase (n k : Nat) : (codebase n k).functionCount = n * k := by
  have hinj : Function.Injective pairAt := fun p q h => pairAt_inj p q (congrArg Prod.snd h)
  have hnodup : ((List.range n ×ˢ List.range k).map pairAt).Nodup :=
    (List.nodup_range.product List.nodup_range).map hinj
  rw [codebase_eq_inserted, functionCount_inserted, filterMap_pair?_insertions,
    List.toFinset_card_of_nodup hnodup, List.length_map, List.length_product, List.length_range,
    List.length_range]

theorem mem_pairs_codebase (n k : Nat) (p : String × String) :
    p ∈ (codebase n k).pairs ↔ ∃ i j, i < n ∧ j < k ∧ pairAt (i, j) = p := by
  rw [codebase_eq_inserted, mem_pairs_inserted, filterMap_pair?_insertions]
  simp only [List.mem_map, Prod.exists, List.mem_product, List.mem_range, and_assoc]

theorem mem_insertions_cases (n k : Nat) (op : Insertion) (h : op ∈ insertions n k) :
    (∃ path, op = .folder path) ∨
      ∃ i j, op = .function (folderPath i) (functionName i j) (function i j) := by
  obtain ⟨i, _, h⟩ := List.mem_flatMap.mp h
  obtain h | h := List.mem_cons.mp h
  · exact Or.inl ⟨_, h⟩
  · obtain ⟨j, _, h⟩ := List.mem_map.mp h
    exact Or.inr ⟨i, j, h.symm⟩

theorem function?_codebase (n k i j : Nat) (hi : i < n) (hj : j < k) :
    (codebase n k).function? (folderPath i) (functionName i j) = some (function i j) := by
  obtain ⟨info, hinfo⟩ := (mem_pairs_iff _ _ _).mp
    ((mem_pairs_codebase n k (pairAt (i, j))).mpr ⟨i, j, hi, hj, rfl⟩)
  rw [hinfo]
  rw [codebase_eq_inserted, function?_inserted] at hinfo
  obtain ⟨op, hop, he⟩ := List.exists_of_findSome?_eq_some hinfo
  obtain ⟨path, rfl⟩ | ⟨i', j', rfl⟩ := mem_insertions_cases n k op (List.mem_reverse.mp hop)
  · cases he
  · rw [Insertion.info?] at he
    split at he
    · next hsame =>
      obtain ⟨rfl, rfl⟩ := functionName_inj _ _ _ _ hsame.2
      exact he.symm
    · cases he

theorem callees?_codebase (n k i j : Nat) (hi : i < n) (hj : j < k) :
    (CallTable.ofCodebase (codebase n k)).callees? (functionName i j) =
      some [functionName (i - 1) j] := by
  have hmem : pairAt (i, j) ∈ (codebase n k).pairs :=
    (mem_pairs_codebase n k _).mpr ⟨i, j, hi, hj, rfl⟩
  have honly : ∀ f, (f, functionName i j) ∈ (codebase n k).pairs → f = folderPath i := by
    intro f hf
    obtain ⟨i', j', _, _, he⟩ := (mem_pairs_codebase n k _).mp hf
    obtain ⟨rfl, rfl⟩ := functionName_inj i' j' i j (congrArg Prod.snd he)
    exact (congrArg Prod.fst he).symm
  have hname : functionName i j ∈ (codebase n k).functionNames := by
    rw [← map_snd_pairs]
    exact List.mem_map_of_mem (f := Prod.snd) hmem
  have hinfo := function?_codebase n k i j hi hj
  rw [CallTable.callees?_ofCodebase, if_pos hname, callsOf_eq _ _ _ _ hinfo honly]
  simp [function, firstOccurrences]

theorem size_ofCodebase (n k : Nat) : (CallTable.ofCodebase (codebase n k)).size = n * k := by
  have hnodup : (codebase n k).functionNames.Nodup := by
    rw [← map_snd_pairs]
    refine List.Nodup.map_on ?_ (nodup_pairs _)
    intro p hp q hq he
    obtain ⟨i, j, _, _, rfl⟩ := (mem_pairs_codebase n k p).mp hp
    obtain ⟨i', j', _, _, rfl⟩ := (mem_pairs_codebase n k q).mp hq
    rw [pairAt_inj _ _ he]
  have hsize : (CallTable.ofCodebase (codebase n k)).size =
      (CallTable.ofCodebase (codebase n k)).callers.keys.length := (List.length_map _).symm
  rw [hsize, CallTable.keys_ofCodebase, firstOccurrences_of_nodup _ hnodup, ← map_snd_pairs,
    List.length_map, length_pairs, functionCount_codebase]

/-- The walk goes down folder by folder, until the function of the first folder calls itself. -/
theorem keys_walk_chain (i j : Nat) (rows : List (String × List String))
    (h : ∀ m ≤ i, rows.lookup (functionName m j) = some [functionName (m - 1) j]) :
    (CallTable.walk rows [functionName i j]).map Prod.fst =
      (List.range (i + 1)).reverse.map (functionName · j) := by
  induction i generalizing rows with
  | zero =>
    have hgone : (CallTable.without (functionName 0 j) rows).lookup (functionName 0 j) = none := by
      rw [CallTable.lookup_without, if_pos rfl]
    rw [CallTable.walk_cons_of_some rows _ _ [] (h 0 (Nat.le_refl 0)), List.nil_append,
      CallTable.walk_cons_of_none _ _ [] hgone, CallTable.walk]
    rfl
  | succ i ih =>
    have hrest : ∀ m ≤ i, (CallTable.without (functionName (i + 1) j) rows).lookup
        (functionName m j) = some [functionName (m - 1) j] := by
      intro m hm
      have hne : functionName m j ≠ functionName (i + 1) j := by
        intro he
        have hmi := (functionName_inj _ _ _ _ he).1
        omega
      rw [CallTable.lookup_without, if_neg hne]
      exact h m (by omega)
    rw [CallTable.walk_cons_of_some rows _ _ [] (h (i + 1) (Nat.le_refl _)), List.nil_append,
      List.map_cons, Nat.add_sub_cancel, ih _ hrest, List.range_succ (n := i + 1),
      List.reverse_append]
    rfl

theorem keys_reachableFrom_codebase (n k i j : Nat) (hi : i < n) (hj : j < k) :
    ((CallTable.ofCodebase (codebase n k)).reachableFrom (functionName i j)).callers.keys =
      (List.range (i + 1)).reverse.map (functionName · j) := by
  apply keys_walk_chain
  intro m hm
  exact callees?_codebase n k m j (by omega) hj

theorem keys_folders_codebase (n k : Nat) (path : String)
    (h : path ∈ (codebase n k).folders.keys) : ∃ m, path = folderPath m := by
  rw [codebase_eq_inserted, keys_folders_inserted, mem_firstOccurrences] at h
  obtain ⟨op, hop, rfl⟩ := List.mem_map.mp h
  obtain ⟨m, _, hop⟩ := List.mem_flatMap.mp hop
  refine ⟨m, ?_⟩
  obtain rfl | hop := List.mem_cons.mp hop
  · rfl
  · obtain ⟨j, _, rfl⟩ := List.mem_map.mp hop
    rfl

theorem ownIds_codebase (n k : Nat) : Graph.OwnIds (codebase n k) := by
  constructor
  · intro p hp q hq he
    obtain ⟨i, j, _, _, rfl⟩ := (mem_pairs_codebase n k p).mp hp
    obtain ⟨i', j', _, _, rfl⟩ := (mem_pairs_codebase n k q).mp hq
    have hname := (Path.join_inj _ _ _ _ (slash_notMem_functionName i j)
      (slash_notMem_functionName i' j') he).2
    exact congrArg pairAt (pairAt_inj _ _ hname)
  · intro p hp path hpath
    obtain ⟨i, j, _, _, rfl⟩ := (mem_pairs_codebase n k p).mp hp
    obtain ⟨m, rfl⟩ := keys_folders_codebase n k path hpath
    exact not_atOrAbove_folderPath (folderPath i) i j m

/-- The sample has as many functions as folders times functions in each, and so do its graph and its
call table: no function shares its id with another function or with a folder, nor its name with
another function. From each function the calls lead down through its counterparts to that of the
first folder. -/
theorem codebase_keeps_functions_apart (n k : Nat) :
    (codebase n k).functionCount = n * k ∧
    (Graph.ofCodebase (codebase n k)).functionCount = n * k ∧
    (∀ i < n, ∀ j < k,
      (Graph.ofCodebase (codebase n k)).node? (Path.join (folderPath i) (functionName i j)) =
        some (.ofFunction (folderPath i) (functionName i j)
          (Path.segments (folderPath i)).length)) ∧
    (CallTable.ofCodebase (codebase n k)).size = n * k ∧
    ∀ i < n, ∀ j < k,
      ((CallTable.ofCodebase (codebase n k)).reachableFrom (functionName i j)).callers.keys =
        (List.range (i + 1)).reverse.map (functionName · j) := by
  have hcount := functionCount_codebase n k
  have hown := ownIds_codebase n k
  refine ⟨hcount, ?_, ?_, size_ofCodebase n k, ?_⟩
  · rw [hown.functionCount_eq, hcount]
  · intro i hi j hj
    have hmem := (mem_pairs_codebase n k _).mpr ⟨i, j, hi, hj, rfl⟩
    exact hown.node?_eq _ (pairAt (i, j)) hmem
  · intro i hi j hj
    exact keys_reachableFrom_codebase n k i j hi hj

/-- The first and the fourth of these folders are the same. -/
theorem codebase_keeps_functions_apart_shared :
    folderPath 3 = folderPath 0 ∧
      (Graph.ofCodebase (codebase 5 2)).functionCount = 10 ∧
      ((CallTable.ofCodebase (codebase 5 2)).reachableFrom "fn_4_1").callers.keys =
        ["fn_4_1", "fn_3_1", "fn_2_1", "fn_1_1", "fn_0_1"] := by
  obtain ⟨_, hgraph, _, _, hchain⟩ := codebase_keeps_functions_apart 5 2
  exact ⟨by decide, hgraph, hchain 4 (by decide) 1 (by decide)⟩

end Sample

end Codebase

end CodeAtlas

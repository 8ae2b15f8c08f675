import Mathlib.Data.Finset.Card
import CodeAtlas.Codebase.Basic
import CodeAtlas.Proofs.OrderedMap
import CodeAtlas.Proofs.Path

namespace CodeAtlas

structure ListsOnce {α : Type} [DecidableEq α] (l kept : List α) : Prop where
  nodup : kept.Nodup
  mem_iff : ∀ a, a ∈ kept ↔ a ∈ l
  ordered : kept.Pairwise fun a b => l.idxOf a < l.idxOf b

theorem listsOnce_firstOccurrences {α : Type} [DecidableEq α] (l : List α) :
    ListsOnce l (firstOccurrences l) where
  nodup := nodup_firstOccurrences l
  mem_iff := mem_firstOccurrences l
  ordered := pairwise_idxOf_firstOccurrences l

namespace Codebase

inductive Insertion where
  | folder (path : String)
  | function (path name : String) (info : FunctionInfo)

namespace Insertion

def path : Insertion → String
  | .folder path => path
  | .function path _ _ => path

def entry? (folder : String) : Insertion → Option (String × FunctionInfo)
  | .folder _ => none
  | .function path name info => if path = folder then some (name, info) else none

def info? (folder name : String) : Insertion → Option FunctionInfo
  | .folder _ => none
  | .function path name' info => if path = folder ∧ name' = name then some info else none

def pair? : Insertion → Option (String × String)
  | .folder _ => none
  | .function path name _ => some (path, name)

end Insertion

def insert (c : Codebase) : Insertion → Codebase
  | .folder path => c.addFolder path
  | .function path name info => c.addFunction path name info

def inserted (ops : List Insertion) : Codebase :=
  ops.foldl insert empty

def entriesIn (folder : String) (ops : List Insertion) : List (String × FunctionInfo) :=
  ops.filterMap (Insertion.entry? folder)

@[simp] theorem inserted_concat (ops : List Insertion) (op : Insertion) :
    inserted (ops ++ [op]) = (inserted ops).insert op := by
  rw [inserted, List.foldl_append]
  rfl

def folderAt (c : Codebase) (f : String) : Folder :=
  (c.folder? f).getD .empty

theorem function?_eq (c : Codebase) (f n : String) : c.function? f n = (c.folderAt f).get? n := by
  rw [function?, folderAt]
  cases c.folder? f with
  | none => rfl
  | some folder => rfl

theorem mem_keys_folders_iff (c : Codebase) (f : String) :
    f ∈ c.folders.keys ↔ ∃ folder, c.folder? f = some folder :=
  OrderedMap.mem_keys_iff c.folders f

theorem folder?_of_notMem (c : Codebase) (f : String) (h : f ∉ c.folders.keys) :
    c.folder? f = none := by
  rw [Option.eq_none_iff_forall_ne_some]
  exact fun folder hf => h ((mem_keys_folders_iff c f).mpr ⟨folder, hf⟩)

theorem addFolder_of_mem (c : Codebase) (f : String) (h : f ∈ c.folders.keys) :
    c.addFolder f = c := by
  obtain ⟨folder, hf⟩ := (mem_keys_folders_iff c f).mp h
  rw [addFolder, hf]

theorem addFolder_of_notMem (c : Codebase) (f : String) (h : f ∉ c.folders.keys) :
    c.addFolder f = ⟨c.folders.insert f .empty⟩ := by
  rw [addFolder, folder?_of_notMem c f h]

@[simp] theorem folderAt_addFolder (c : Codebase) (path f : String) :
    (c.addFolder path).folderAt f = c.folderAt f := by
  by_cases h : path ∈ c.folders.keys
  · rw [addFolder_of_mem c path h]
  · rw [addFolder_of_notMem c path h, folderAt, folder?, OrderedMap.get?_insert]
    split
    · next he => rw [folderAt, he, folder?_of_notMem c path h]; rfl
    · rfl

theorem folderAt_addFunction (c : Codebase) (path name f : String) (info : FunctionInfo) :
    (c.addFunction path name info).folderAt f =
      if path = f then (c.folderAt f).insert name info else c.folderAt f := by
  rw [folderAt, folder?, addFunction, OrderedMap.get?_insert]
  by_cases h : path = f
  · subst h
    rw [if_pos rfl, if_pos rfl]
    rfl
  · rw [if_neg h, if_neg (Ne.symm h)]
    rfl

theorem folderAt_insert (c : Codebase) (op : Insertion) (f : String) :
    (c.insert op).folderAt f =
      (op.entry? f).elim (c.folderAt f) fun e => (c.folderAt f).insert e.1 e.2 := by
  cases op with
  | folder path => exact folderAt_addFolder c path f
  | function path name info =>
    rw [insert, folderAt_addFunction, Insertion.entry?]
    split <;> rfl

theorem keys_folders_insert (c : Codebase) (op : Insertion) :
    (c.insert op).folders.keys =
      if op.path ∈ c.folders.keys then c.folders.keys else c.folders.keys ++ [op.path] := by
  cases op with
  | folder path =>
    rw [insert, Insertion.path]
    by_cases h : path ∈ c.folders.keys
    · rw [addFolder_of_mem c path h, if_pos h]
    · rw [addFolder_of_notMem c path h]
      exact OrderedMap.keys_insert ..
  | function path name info => exact OrderedMap.keys_insert ..

@[simp] theorem keys_folders_inserted (ops : List Insertion) :
    (inserted ops).folders.keys = firstOccurrences (ops.map Insertion.path) := by
  induction ops using List.reverseRecOn with
  | nil => rfl
  | append_singleton ops op ih =>
    rw [inserted_concat, keys_folders_insert, ih, List.map_append, List.map_singleton,
      firstOccurrences_concat]

theorem folderAt_inserted (ops : List Insertion) (f : String) :
    (inserted ops).folderAt f = OrderedMap.ofList (entriesIn f ops) := by
  induction ops using List.reverseRecOn with
  | nil => rfl
  | append_singleton ops op ih =>
    rw [inserted_concat, folderAt_insert, ih, entriesIn, entriesIn, List.filterMap_append]
    cases he : op.entry? f with
    | none =>
      rw [List.filterMap_cons_none he]
      exact congrArg OrderedMap.ofList (List.append_nil _).symm
    | some e =>
      rw [List.filterMap_cons_some he]
      exact (OrderedMap.ofList_concat _ e).symm

/-- Of the entries of a folder with one name, the last one stands. -/
theorem lookup_reverse_entriesIn (ops : List Insertion) (f n : String) :
    (entriesIn f ops).reverse.lookup n = ops.reverse.findSome? (Insertion.info? f n) := by
  rw [entriesIn, ← List.filterMap_reverse]
  induction ops.reverse with
  | nil => rfl
  | cons op ops ih =>
    rw [List.filterMap_cons, List.findSome?_cons, ← ih]
    cases op with
    | folder path => rfl
    | function path name info =>
      by_cases hp : path = f
      · simp only [Insertion.entry?, Insertion.info?, hp, if_true, true_and,
          OrderedMap.lookup_cons_ite, eq_comm]
        split <;> rfl
      · simp only [Insertion.entry?, Insertion.info?, hp, if_false, false_and]

@[simp] theorem function?_inserted (ops : List Insertion) (f n : String) :
    (inserted ops).function? f n = ops.reverse.findSome? (Insertion.info? f n) := by
  rw [function?_eq, folderAt_inserted, OrderedMap.get?_ofList, lookup_reverse_entriesIn]

def pairs (c : Codebase) : List (String × String) :=
  c.folders.entries.flatMap fun e => e.2.keys.map (e.1, ·)

@[simp] theorem length_pairs (c : Codebase) : c.pairs.length = c.functionCount := by
  rw [pairs, functionCount, OrderedMap.values]
  induction c.folders.entries with
  | nil => rfl
  | cons e es ih =>
    rw [List.flatMap_cons, List.length_append, ih, List.length_map, OrderedMap.keys,
      List.length_map]
    rfl

theorem mem_pairs_iff (c : Codebase) (f n : String) :
    (f, n) ∈ c.pairs ↔ ∃ info, c.function? f n = some info := by
  simp only [pairs, function?, folder?, List.mem_flatMap, List.mem_map, Prod.exists,
    Prod.mk.injEq, OrderedMap.mem_entries_iff, OrderedMap.mem_keys_iff, Option.bind_eq_some_iff]
  grind

theorem nodup_pairs (c : Codebase) : c.pairs.Nodup := by
  rw [pairs, List.nodup_flatMap]
  refine ⟨fun e _ => List.Nodup.map (Prod.mk_right_injective e.1) e.2.distinct, ?_⟩
  refine (List.pairwise_map.mp c.folders.distinct).imp ?_
  intro a b hab p ha hb
  obtain ⟨n, _, rfl⟩ := List.mem_map.mp ha
  obtain ⟨n', _, he⟩ := List.mem_map.mp hb
  exact hab (congrArg Prod.fst he).symm

theorem Insertion.isSome_info?_iff (f n : String) (op : Insertion) :
    (op.info? f n).isSome ↔ op.pair? = some (f, n) := by
  cases op with
  | folder path => simp [info?, pair?]
  | function path name info =>
    rw [info?, pair?, Option.some.injEq, Prod.mk.injEq]
    split <;> simp [*]

theorem mem_pairs_inserted (ops : List Insertion) (p : String × String) :
    p ∈ (inserted ops).pairs ↔ p ∈ ops.filterMap Insertion.pair? := by
  rw [mem_pairs_iff, function?_inserted, ← Option.isSome_iff_exists, List.findSome?_isSome_iff]
  simp only [Insertion.isSome_info?_iff, List.mem_reverse, List.mem_filterMap]

theorem functionCount_inserted (ops : List Insertion) :
    (inserted ops).functionCount = (ops.filterMap Insertion.pair?).toFinset.card := by
  rw [← length_pairs, ← List.toFinset_card_of_nodup (nodup_pairs _)]
  apply congrArg
  ext p
  rw [List.mem_toFinset, List.mem_toFinset, mem_pairs_inserted]

/-- A codebase tells of the insertions that made it: the first mention of a folder or a function
gives it its place, and the last record of a function stands. -/
theorem inserted_tells_history (ops : List Insertion) :
    let c := inserted ops
    ListsOnce (ops.map Insertion.path) c.folders.keys ∧
    (∀ f ∈ c.folders.keys, ∃ folder, c.folder? f = some folder ∧
      ListsOnce ((entriesIn f ops).map Prod.fst) folder.keys) ∧
    (∀ f n, c.function? f n = ops.reverse.findSome? (Insertion.info? f n)) ∧
    (∀ f ∈ c.folders.keys, c.addFolder f = c) ∧
    c.functionCount = (ops.filterMap Insertion.pair?).toFinset.card ∧
    ListsOnce (c.folders.keys.filterMap fun p => (Path.segments p).head?) c.roots := by
  intro c
  refine ⟨?_, ?_, function?_inserted ops, addFolder_of_mem c, functionCount_inserted ops, ?_⟩
  · rw [keys_folders_inserted]
    exact listsOnce_firstOccurrences _
  · intro f hf
    obtain ⟨folder, hget⟩ := (mem_keys_folders_iff c f).mp hf
    have hc : c.folderAt f = folder := congrArg (·.getD .empty) hget
    refine ⟨folder, hget, ?_⟩
    rw [← hc, folderAt_inserted, OrderedMap.keys_ofList]
    exact listsOnce_firstOccurrences _
  · simp only [Path.head?_segments, List.filterMap_eq_map']
    exact listsOnce_firstOccurrences _

end Codebase

end CodeAtlas

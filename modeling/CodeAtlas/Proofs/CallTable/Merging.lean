import Mathlib.Data.List.Nodup
import CodeAtlas.CallTable
import CodeAtlas.Proofs.OrderedMap

namespace CodeAtlas

namespace Codebase

def records (c : Codebase) : List (String × FunctionInfo) :=
  c.folders.values.flatMap OrderedMap.entries

def callsOf (c : Codebase) (name : String) : List String :=
  c.folders.values.flatMap fun folder => ((folder.get? name).map FunctionInfo.calls).getD []

def functionNames (c : Codebase) : List String :=
  c.folders.values.flatMap OrderedMap.keys

@[simp] theorem map_fst_records (c : Codebase) : c.records.map Prod.fst = c.functionNames := by
  rw [records, functionNames, List.map_flatMap]
  rfl

theorem mem_functionNames (c : Codebase) (name : String) :
    name ∈ c.functionNames ↔ ∃ folder ∈ c.folders.values, name ∈ folder.keys :=
  List.mem_flatMap

end Codebase

namespace CallTable

def callsIn (records : List (String × FunctionInfo)) (name : String) : List String :=
  records.flatMap fun e => if e.1 = name then e.2.calls else []

@[simp] theorem callsIn_records (c : Codebase) (name : String) :
    callsIn c.records name = c.callsOf name := by
  rw [callsIn, Codebase.records, List.flatMap_assoc, Codebase.callsOf]
  apply List.flatMap_congr
  intro folder _
  exact folder.flatMap_entries_ite name FunctionInfo.calls

theorem callsIn_of_notMem (records : List (String × FunctionInfo)) (name : String)
    (h : name ∉ records.map Prod.fst) : callsIn records name = [] := by
  rw [callsIn, List.flatMap_eq_nil_iff]
  intro e he
  rw [if_neg]
  exact fun hn => h (hn ▸ List.mem_map_of_mem he)

def merged (records : List (String × FunctionInfo)) : CallTable :=
  records.foldl (fun t e => t.add e.1 e.2) empty

theorem ofCodebase_eq_merged (c : Codebase) : ofCodebase c = merged c.records := rfl

@[simp] theorem merged_concat (records : List (String × FunctionInfo)) (e : String × FunctionInfo) :
    merged (records ++ [e]) = (merged records).add e.1 e.2 := by
  rw [merged, List.foldl_append]
  rfl

theorem callees?_add (t : CallTable) (name x : String) (info : FunctionInfo) :
    (t.add name info).callees? x =
      if x = name then some (firstOccurrences ((t.callees? name).getD [] ++ info.calls))
      else t.callees? x :=
  OrderedMap.get?_insert t.callers name x _

@[simp] theorem keys_merged (records : List (String × FunctionInfo)) :
    (merged records).callers.keys = firstOccurrences (records.map Prod.fst) := by
  induction records using List.reverseRecOn with
  | nil => rfl
  | append_singleton records e ih =>
    rw [merged_concat, add, OrderedMap.keys_insert, ih, List.map_append, List.map_singleton,
      firstOccurrences_concat]

/-- To drop repeated callees with every function added comes to the same as to drop them once, from
all calls of the name. -/
theorem callees?_merged (records : List (String × FunctionInfo)) (name : String) :
    (merged records).callees? name =
      if name ∈ records.map Prod.fst then some (firstOccurrences (callsIn records name))
      else none := by
  induction records using List.reverseRecOn with
  | nil => rfl
  | append_singleton records e ih =>
    have hcalls : callsIn (records ++ [e]) name =
        callsIn records name ++ if e.1 = name then e.2.calls else [] := by
      rw [callsIn, List.flatMap_append, List.flatMap_singleton, callsIn]
    have hbefore : ((merged records).callees? name).getD [] =
        firstOccurrences (callsIn records name) := by
      rw [ih]
      split
      · rfl
      · next hn =>
        rw [callsIn_of_notMem records name hn]
        rfl
    rw [merged_concat, callees?_add, hcalls, List.map_append, List.map_singleton]
    by_cases he : name = e.1
    · subst he
      simp only [if_true, hbefore, firstOccurrences_append, List.mem_append, List.mem_singleton,
        or_true]
    · rw [if_neg he, if_neg (Ne.symm he), List.append_nil, ih]
      simp only [List.mem_append, List.mem_singleton, he, or_false]

theorem callees?_ofCodebase (c : Codebase) (name : String) :
    (ofCodebase c).callees? name =
      if name ∈ c.functionNames then some (firstOccurrences (c.callsOf name)) else none := by
  rw [ofCodebase_eq_merged, callees?_merged, callsIn_records, Codebase.map_fst_records]

@[simp] theorem keys_ofCodebase (c : Codebase) :
    (ofCodebase c).callers.keys = firstOccurrences c.functionNames := by
  rw [ofCodebase_eq_merged, keys_merged, Codebase.map_fst_records]

theorem pairs_ofCodebase (c : Codebase) :
    (ofCodebase c).pairs =
      (firstOccurrences c.functionNames).flatMap fun name =>
        (firstOccurrences (c.callsOf name)).map (name, ·) := by
  have hentries : (ofCodebase c).callers.entries =
      (firstOccurrences c.functionNames).map
        fun name => (name, firstOccurrences (c.callsOf name)) := by
    rw [OrderedMap.entries_eq, keys_ofCodebase, ← List.filterMap_eq_map]
    apply List.filterMap_congr
    intro name hn
    have hc := callees?_ofCodebase c name
    rw [if_pos ((mem_firstOccurrences _ name).mp hn)] at hc
    rw [callees?] at hc
    rw [hc]
    rfl
  rw [pairs, hentries, List.flatMap_map]

theorem nodup_pairs_ofCodebase (c : Codebase) : (ofCodebase c).pairs.Nodup := by
  rw [pairs_ofCodebase, List.nodup_flatMap]
  constructor
  · intro name _
    exact (nodup_firstOccurrences _).map fun a b h => (Prod.mk.inj h).2
  · refine (nodup_firstOccurrences c.functionNames).imp ?_
    intro a b hab p ha hb
    obtain ⟨x, _, rfl⟩ := List.mem_map.mp ha
    obtain ⟨y, _, hy⟩ := List.mem_map.mp hb
    exact hab (Prod.mk.inj hy).1.symm

theorem mem_pairs_ofCodebase (c : Codebase) (p : String × String) :
    p ∈ (ofCodebase c).pairs ↔ p.2 ∈ c.callsOf p.1 := by
  obtain ⟨name, callee⟩ := p
  simp only [pairs_ofCodebase, List.mem_flatMap, List.mem_map, mem_firstOccurrences]
  constructor
  · rintro ⟨x, _, y, hy, he⟩
    obtain ⟨rfl, rfl⟩ := Prod.mk.inj he
    exact hy
  · intro h
    refine ⟨name, ?_, callee, h, rfl⟩
    by_contra hn
    rw [← Codebase.map_fst_records] at hn
    rw [← callsIn_records, callsIn_of_notMem c.records name hn] at h
    exact List.not_mem_nil h

theorem pairwise_pairs_ofCodebase (c : Codebase) :
    (ofCodebase c).pairs.Pairwise
      fun p q => c.functionNames.idxOf p.1 ≤ c.functionNames.idxOf q.1 := by
  rw [pairs_ofCodebase, List.pairwise_flatMap]
  constructor
  · intro name _
    rw [List.pairwise_map]
    exact List.pairwise_of_forall fun _ _ => Nat.le_refl _
  · refine (pairwise_idxOf_firstOccurrences c.functionNames).imp ?_
    intro a b hab p hp q hq
    obtain ⟨x, _, rfl⟩ := List.mem_map.mp hp
    obtain ⟨y, _, rfl⟩ := List.mem_map.mp hq
    exact Nat.le_of_lt hab

/-- A name has a row exactly if some folder has a function of that name, and the row holds the
distinct callees of all these functions, in order of first occurrence. The pairs are all calls
between names, each listed once, by callers in the order in which the document first names them. -/
theorem ofCodebase_merges (c : Codebase) :
    (∀ name, (ofCodebase c).callees? name =
        if ∃ folder ∈ c.folders.values, name ∈ folder.keys then
          some (firstOccurrences (c.callsOf name))
        else none) ∧
      (ofCodebase c).pairs.Nodup ∧
      (∀ p, p ∈ (ofCodebase c).pairs ↔ p.2 ∈ c.callsOf p.1) ∧
      (ofCodebase c).pairs.Pairwise
        (fun p q => c.functionNames.idxOf p.1 ≤ c.functionNames.idxOf q.1) ∧
      ∀ l : List String, (firstOccurrences l).Nodup ∧ (∀ x, x ∈ firstOccurrences l ↔ x ∈ l) ∧
        (firstOccurrences l).Pairwise fun a b => l.idxOf a < l.idxOf b := by
  refine ⟨?_, nodup_pairs_ofCodebase c, mem_pairs_ofCodebase c, pairwise_pairs_ofCodebase c, ?_⟩
  · intro name
    simp only [callees?_ofCodebase, Codebase.mem_functionNames]
  · intro l
    exact ⟨nodup_firstOccurrences l, mem_firstOccurrences l, pairwise_idxOf_firstOccurrences l⟩

end CallTable

end CodeAtlas

import Mathlib.Data.List.Dedup
import Mathlib.Data.List.Induction
import CodeAtlas.OrderedMap

namespace CodeAtlas

section FirstOccurrences

variable {α : Type} [DecidableEq α]

theorem firstOccurrences_concat (l : List α) (a : α) :
    firstOccurrences (l ++ [a]) =
      if a ∈ firstOccurrences l then firstOccurrences l else firstOccurrences l ++ [a] := by
  rw [firstOccurrences, List.foldl_append]
  rfl

theorem firstOccurrences_eq_dedup (l : List α) : firstOccurrences l = l.reverse.dedup.reverse := by
  induction l using List.reverseRecOn with
  | nil => rfl
  | append_singleton l a ih =>
    rw [firstOccurrences_concat, ih, List.reverse_append, List.reverse_singleton,
      List.singleton_append]
    by_cases ha : a ∈ l.reverse
    · have hd : a ∈ l.reverse.dedup.reverse := by simpa using ha
      rw [if_pos hd, List.dedup_cons_of_mem ha]
    · have hd : a ∉ l.reverse.dedup.reverse := by simpa using ha
      rw [if_neg hd, List.dedup_cons_of_notMem ha, List.reverse_cons]

@[simp] theorem mem_firstOccurrences (l : List α) (x : α) : x ∈ firstOccurrences l ↔ x ∈ l := by
  rw [firstOccurrences_eq_dedup, List.mem_reverse, List.mem_dedup, List.mem_reverse]

theorem nodup_firstOccurrences (l : List α) : (firstOccurrences l).Nodup := by
  rw [firstOccurrences_eq_dedup]
  exact List.nodup_reverse.mpr (List.nodup_dedup _)

theorem firstOccurrences_of_nodup (l : List α) (h : l.Nodup) : firstOccurrences l = l := by
  rw [firstOccurrences_eq_dedup, (List.nodup_reverse.mpr h).dedup, List.reverse_reverse]

/-- What was kept of the first part of a list can stand in its place. -/
theorem firstOccurrences_append (l m : List α) :
    firstOccurrences (firstOccurrences l ++ m) = firstOccurrences (l ++ m) := by
  induction m using List.reverseRecOn with
  | nil =>
    rw [List.append_nil, List.append_nil]
    exact firstOccurrences_of_nodup _ (nodup_firstOccurrences l)
  | append_singleton m a ih =>
    rw [← List.append_assoc, ← List.append_assoc, firstOccurrences_concat, firstOccurrences_concat,
      ih]

theorem pairwise_idxOf_firstOccurrences (l : List α) :
    (firstOccurrences l).Pairwise fun a b => l.idxOf a < l.idxOf b := by
  induction l using List.reverseRecOn with
  | nil => exact List.Pairwise.nil
  | append_singleton l a ih =>
    have hkept : ∀ x ∈ firstOccurrences l, (l ++ [a]).idxOf x = l.idxOf x := by
      intro x hx
      exact List.idxOf_append_of_mem ((mem_firstOccurrences l x).mp hx)
    have hl : (firstOccurrences l).Pairwise fun x y => (l ++ [a]).idxOf x < (l ++ [a]).idxOf y := by
      refine ih.imp_of_mem ?_
      intro x y hx hy hlt
      rwa [hkept x hx, hkept y hy]
    rw [firstOccurrences_concat]
    split
    · exact hl
    · next ha =>
      rw [List.pairwise_append]
      refine ⟨hl, List.pairwise_singleton _ a, ?_⟩
      intro x hx y hy
      have hlast : l.length ≤ (l ++ [a]).idxOf a := by
        rw [mem_firstOccurrences] at ha
        rw [List.idxOf_append_of_notMem ha]
        exact Nat.le_add_right _ _
      calc (l ++ [a]).idxOf x = l.idxOf x := hkept x hx
        _ < l.length := List.idxOf_lt_length_of_mem ((mem_firstOccurrences l x).mp hx)
        _ ≤ (l ++ [a]).idxOf y := by rwa [List.mem_singleton.mp hy]

theorem length_firstOccurrences_le (l : List α) : (firstOccurrences l).length ≤ l.length := by
  have h := (List.dedup_sublist l.reverse).length_le
  rwa [firstOccurrences_eq_dedup, List.length_reverse, ← l.length_reverse]

theorem filter_firstOccurrences (p : α → Bool) (l : List α) :
    (firstOccurrences l).filter p = firstOccurrences (l.filter p) := by
  induction l using List.reverseRecOn with
  | nil => rfl
  | append_singleton l a ih =>
    rw [firstOccurrences_concat, List.filter_append]
    by_cases hp : p a
    · have ha : a ∈ firstOccurrences (l.filter p) ↔ a ∈ firstOccurrences l := by
        simp only [mem_firstOccurrences, List.mem_filter, hp, and_true]
      rw [List.filter_singleton, hp, cond_true, firstOccurrences_concat, ← ih]
      simp only [← ih] at ha
      by_cases hm : a ∈ firstOccurrences l
      · rw [if_pos hm, if_pos (ha.mpr hm)]
      · rw [if_neg hm, if_neg (fun h => hm (ha.mp h)), List.filter_append, List.filter_singleton,
          hp, cond_true]
    · have hn : [a].filter p = [] := by simp [hp]
      rw [hn, List.append_nil, ← ih]
      split
      · rfl
      · rw [List.filter_append, hn, List.append_nil]

theorem firstOccurrences_map {β : Type} [DecidableEq β] (f : α → β) (l : List α)
    (hf : ∀ a ∈ l, ∀ b ∈ l, f a = f b → a = b) :
    firstOccurrences (l.map f) = (firstOccurrences l).map f := by
  induction l using List.reverseRecOn with
  | nil => rfl
  | append_singleton l a ih =>
    have hl : ∀ x ∈ l, ∀ y ∈ l, f x = f y → x = y := fun x hx y hy =>
      hf x (List.mem_append_left [a] hx) y (List.mem_append_left [a] hy)
    have ha : f a ∈ (firstOccurrences l).map f ↔ a ∈ firstOccurrences l := by
      refine ⟨fun h => ?_, List.mem_map_of_mem⟩
      obtain ⟨x, hx, he⟩ := List.mem_map.mp h
      have hm := (mem_firstOccurrences l x).mp hx
      rwa [← hf x (List.mem_append_left [a] hm) a (by simp) he]
    rw [List.map_append, List.map_singleton, firstOccurrences_concat, firstOccurrences_concat,
      ih hl]
    simp only [ha]
    split
    · rfl
    · rw [List.map_append, List.map_singleton]

end FirstOccurrences

/-- With distinct keys, the keys and the search by key give the list back. -/
theorem filterMap_find?_keys {α κ : Type} [DecidableEq κ] (key : α → κ) (l : List α)
    (h : (l.map key).Nodup) : (l.map key).filterMap (fun k => l.find? (key · == k)) = l := by
  induction l with
  | nil => rfl
  | cons a l ih =>
    obtain ⟨ha, hl⟩ := List.nodup_cons.mp h
    have ht : (l.map key).filterMap (fun k => (a :: l).find? (key · == k)) =
        (l.map key).filterMap (fun k => l.find? (key · == k)) := by
      apply List.filterMap_congr
      intro k hk
      have hne : key a ≠ k := fun he => ha (he ▸ hk)
      exact List.find?_cons_of_neg (by simpa using hne)
    rw [List.map_cons, List.filterMap_cons, ht, ih hl]
    simp

namespace OrderedMap

variable {κ υ : Type} [DecidableEq κ]

/-- Every key where it first came, with the value that came with it last. -/
def settled (l : List (κ × υ)) : List (κ × υ) :=
  (firstOccurrences (l.map Prod.fst)).filterMap fun k => (l.reverse.lookup k).map (k, ·)

theorem lookup_cons_ite (a k : κ) (b : υ) (l : List (κ × υ)) :
    ((a, b) :: l).lookup k = if k = a then some b else l.lookup k := by
  rw [List.lookup_cons]
  by_cases h : k = a
  · simp [h]
  · simp [h, beq_eq_false_iff_ne.mpr h]

theorem keys_place (k : κ) (v : υ) (l : List (κ × υ)) :
    (place k v l).map Prod.fst =
      if k ∈ l.map Prod.fst then l.map Prod.fst else l.map Prod.fst ++ [k] := by
  induction l with
  | nil => rfl
  | cons e rest ih =>
    by_cases he : e.1 = k
    · simp [place, he]
    · have hk : k ≠ e.1 := Ne.symm he
      simp only [place, he, if_false, List.map_cons, ih, List.mem_cons, hk, false_or]
      split <;> rfl

theorem lookup_place (k k' : κ) (v : υ) (l : List (κ × υ)) :
    (place k v l).lookup k' = if k' = k then some v else l.lookup k' := by
  induction l with
  | nil => rw [place, lookup_cons_ite]
  | cons e rest ih =>
    obtain ⟨a, b⟩ := e
    by_cases ha : a = k
    · subst ha
      simp only [place, if_true, lookup_cons_ite]
      split <;> rfl
    · simp only [place, ha, if_false, lookup_cons_ite, ih]
      by_cases h : k' = a
      · simp [h, ha]
      · simp [h]

theorem keys_insert (m : OrderedMap κ υ) (k : κ) (v : υ) :
    (m.insert k v).keys = if k ∈ m.keys then m.keys else m.keys ++ [k] :=
  keys_place k v m.entries

@[simp] theorem get?_insert (m : OrderedMap κ υ) (k k' : κ) (v : υ) :
    (m.insert k v).get? k' = if k' = k then some v else m.get? k' :=
  lookup_place k k' v m.entries

theorem ofList_concat (l : List (κ × υ)) (e : κ × υ) :
    ofList (l ++ [e]) = (ofList l).insert e.1 e.2 := by
  simp only [ofList, List.foldl_append, List.foldl_cons, List.foldl_nil]

@[simp] theorem keys_ofList (l : List (κ × υ)) :
    (ofList l).keys = firstOccurrences (l.map Prod.fst) := by
  induction l using List.reverseRecOn with
  | nil => rfl
  | append_singleton l e ih =>
    rw [ofList_concat, keys_insert, ih, List.map_append, List.map_singleton,
      firstOccurrences_concat]

theorem get?_ofList (l : List (κ × υ)) (k : κ) : (ofList l).get? k = l.reverse.lookup k := by
  induction l using List.reverseRecOn with
  | nil => rfl
  | append_singleton l e ih =>
    rw [ofList_concat, get?_insert, ih, List.reverse_append, List.reverse_singleton,
      List.singleton_append, lookup_cons_ite]

theorem map_lookup (l : List (κ × υ)) (k : κ) :
    (l.lookup k).map (k, ·) = l.find? (·.1 == k) := by
  induction l with
  | nil => rfl
  | cons e l ih =>
    obtain ⟨a, b⟩ := e
    rw [lookup_cons_ite]
    by_cases h : k = a
    · simp [h]
    · rw [if_neg h, ih, List.find?_cons_of_neg (by simpa using Ne.symm h)]

theorem entries_eq (m : OrderedMap κ υ) :
    m.entries = m.keys.filterMap fun k => (m.get? k).map (k, ·) := by
  simp only [get?, map_lookup]
  exact (filterMap_find?_keys Prod.fst m.entries m.distinct).symm

theorem eq_of_keys_of_get? (m m' : OrderedMap κ υ) (hk : m.keys = m'.keys)
    (hg : ∀ k, m.get? k = m'.get? k) : m = m' := by
  have he : m.entries = m'.entries := by
    rw [entries_eq, entries_eq m', hk]
    simp only [hg]
  cases m
  cases m'
  congr

theorem entries_ofList (l : List (κ × υ)) : (ofList l).entries = settled l := by
  rw [entries_eq, keys_ofList]
  simp only [get?_ofList, settled]

example : settled [("a", 1), ("b", 2), ("a", 3)] = [("a", 3), ("b", 2)] := by decide

theorem isEmpty_ofList (l : List (κ × υ)) : (ofList l).isEmpty = l.isEmpty := by
  cases l with
  | nil => rfl
  | cons e l =>
    have hk : e.1 ∈ (ofList (e :: l)).keys := by
      rw [keys_ofList, mem_firstOccurrences]
      exact List.mem_cons_self
    rw [isEmpty, List.isEmpty_cons]
    cases he : (ofList (e :: l)).entries with
    | nil => simp [keys, he] at hk
    | cons _ _ => rfl

theorem lookup_map_snd {υ' : Type} (f : υ → υ') (l : List (κ × υ)) (k : κ) :
    (l.map fun e => (e.1, f e.2)).lookup k = (l.lookup k).map f := by
  induction l with
  | nil => rfl
  | cons e l ih =>
    obtain ⟨a, b⟩ := e
    rw [List.map_cons, lookup_cons_ite, lookup_cons_ite, ih]
    split <;> rfl

theorem settled_map {υ' : Type} (f : υ → υ') (l : List (κ × υ)) :
    settled (l.map fun e => (e.1, f e.2)) = (settled l).map fun e => (e.1, f e.2) := by
  simp only [settled, List.map_map, Function.comp_def, ← List.map_reverse, lookup_map_snd,
    List.map_filterMap, Option.map_map]

theorem mem_entries_iff (m : OrderedMap κ υ) (k : κ) (v : υ) :
    (k, v) ∈ m.entries ↔ m.get? k = some v := by
  rw [entries_eq m]
  constructor
  · intro h
    obtain ⟨k', _, hk⟩ := List.mem_filterMap.mp h
    obtain ⟨v', hv, he⟩ := Option.map_eq_some_iff.mp hk
    cases he
    exact hv
  · intro h
    have hm : k ∈ m.keys := by
      obtain ⟨l₁, l₂, hl, _⟩ := List.lookup_eq_some_iff.mp h
      simp [keys, hl]
    exact List.mem_filterMap.mpr ⟨k, hm, by simp [h]⟩

theorem mem_keys_iff (m : OrderedMap κ υ) (k : κ) : k ∈ m.keys ↔ ∃ v, m.get? k = some v := by
  simp only [keys, List.mem_map, Prod.exists, mem_entries_iff, exists_and_right, exists_eq_right]

theorem flatMap_entries_ite {α : Type} (m : OrderedMap κ υ) (k : κ) (f : υ → List α) :
    (m.entries.flatMap fun e => if e.1 = k then f e.2 else []) = ((m.get? k).map f).getD [] := by
  obtain ⟨l, hn⟩ := m
  rw [get?]
  induction l with
  | nil => rfl
  | cons e l ih =>
    obtain ⟨a, b⟩ := e
    have ha : a ∉ l.map Prod.fst := (List.nodup_cons.mp hn).1
    rw [List.flatMap_cons, ih (List.nodup_cons.mp hn).2, lookup_cons_ite]
    by_cases h : a = k
    · subst h
      have hno : l.lookup a = none := by
        rw [List.lookup_eq_none_iff]
        intro p hp
        have hne : a ≠ p.1 := fun he => ha (he ▸ List.mem_map_of_mem hp)
        simpa using hne
      rw [if_pos rfl, if_pos rfl, hno]
      exact List.append_nil _
    · rw [if_neg h, if_neg (Ne.symm h), List.nil_append]

@[simp] theorem ofList_entries (m : OrderedMap κ υ) : ofList m.entries = m := by
  apply eq_of_keys_of_get?
  · rw [keys_ofList]
    exact firstOccurrences_of_nodup _ m.distinct
  · intro k
    ext v
    rw [get?_ofList, ← mem_entries_iff m]
    have hn : (m.entries.reverse.map Prod.fst).Nodup := by
      rw [List.map_reverse]
      exact List.nodup_reverse.mpr m.distinct
    have h := mem_entries_iff (⟨m.entries.reverse, hn⟩ : OrderedMap κ υ) k v
    rw [List.mem_reverse] at h
    exact h.symm

theorem contains_iff (m : OrderedMap κ υ) (k : κ) : m.contains k = true ↔ k ∈ m.keys := by
  rw [contains, Option.isSome_iff_exists, mem_keys_iff]

section Locates

variable {α : Type} {m : OrderedMap κ Nat} {f : α → Option κ} {l : List α}

/-- The map tells for each key where it stands in a list. What has no key is passed over. -/
def Locates (m : OrderedMap κ Nat) (f : α → Option κ) (l : List α) : Prop :=
  ∀ k i, m.get? k = some i ↔ l[i]?.bind f = some k

theorem locates_empty (f : α → Option κ) : (empty : OrderedMap κ Nat).Locates f [] := by
  intro k i
  simp [empty, get?]

theorem Locates.mem_keys_iff (h : m.Locates f l) (k : κ) : k ∈ m.keys ↔ ∃ a ∈ l, f a = some k := by
  rw [OrderedMap.mem_keys_iff]
  constructor
  · rintro ⟨i, hi⟩
    obtain ⟨a, ha, hf⟩ := Option.bind_eq_some_iff.mp ((h k i).mp hi)
    exact ⟨a, List.mem_of_getElem? ha, hf⟩
  · rintro ⟨a, ha, hf⟩
    obtain ⟨i, hi⟩ := List.mem_iff_getElem?.mp ha
    exact ⟨i, (h k i).mpr (by rw [hi]; exact hf)⟩

theorem Locates.unique (h : m.Locates f l) (i j : Nat) (k : κ) (hi : l[i]?.bind f = some k)
    (hj : l[j]?.bind f = some k) : i = j := by
  have he := ((h k i).mpr hi).symm.trans ((h k j).mpr hj)
  exact Option.some.inj he

theorem Locates.concat_of_none (h : m.Locates f l) (a : α) (ha : f a = none) :
    m.Locates f (l ++ [a]) := by
  intro k i
  rw [h k i]
  rcases Nat.lt_trichotomy i l.length with hi | rfl | hi
  · rw [List.getElem?_append_left hi]
  · simp [ha]
  · rw [List.getElem?_eq_none (Nat.le_of_lt hi), List.getElem?_eq_none (by simp; omega)]

theorem Locates.concat (h : m.Locates f l) (a : α) (k : κ) (ha : f a = some k)
    (hk : m.get? k = none) : (m.insert k l.length).Locates f (l ++ [a]) := by
  intro k' i
  rw [get?_insert]
  rcases Nat.lt_trichotomy i l.length with hi | rfl | hi
  · rw [List.getElem?_append_left hi, ← h k' i]
    split
    · next he =>
      subst he
      simp only [hk, Option.some.injEq, reduceCtorEq, iff_false]
      omega
    · rfl
  · rw [List.getElem?_concat_length, Option.bind_some, ha]
    split
    · next he => simp [he]
    · next he =>
      have hne : m.get? k' ≠ some l.length := by
        intro hget
        simpa using (h k' l.length).mp hget
      simp [hne, Ne.symm he]
  · have hout : (l ++ [a])[i]? = none := List.getElem?_eq_none (by simp; omega)
    have hne : m.get? k' ≠ some i := by
      intro hget
      rw [h k' i, List.getElem?_eq_none (Nat.le_of_lt hi)] at hget
      cases hget
    rw [hout]
    split
    · simp only [Option.some.injEq, Option.bind_none, reduceCtorEq, iff_false]
      omega
    · simp [hne]

end Locates

end OrderedMap

end CodeAtlas
